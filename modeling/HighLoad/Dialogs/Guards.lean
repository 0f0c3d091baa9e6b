/-
# HighLoad.Dialogs.Guards — resharding commands in any order

Nothing forces an operator to keep the documented order; what stands between a wrong order and lost
messages are the guards of the commands, and the guard of `cleanup` looks at one flag. The ledger
runs completed sends and commands in any order. Cleanup deletes rows that have no copy exactly when
the check of `cmd_verify` was not passed first for the shards it clears, and no other command
deletes anything (`messages_kept_iff`).
-/
import HighLoad.Dialogs.ReadYourWrites
import HighLoad.Dialogs.CommandSpecs
import Mathlib.Tactic.IntervalCases

namespace HighLoad.Dialogs

open DialogsCluster

/-- The cluster and the messages whose `send` has returned. -/
structure Ledger where
  cluster : DialogsCluster
  acked : List Message

/-- A completed send or a command, run to its return or its exception. -/
inductive LedgerOp where
  | send (fromId toId : Uuid) (text : String) (messageId : Uuid) (now : Nat → DateTime)
  | command (cmd : Command)

/-- The shard count a command is given is one of the cluster's. -/
def Command.InRange (N : Nat) : Command → Prop
  | .enableDualWrite n | .backfill n | .verify n | .switchRead n | .cleanup n => 1 ≤ n ∧ n ≤ N
  | .disableDualWrite => True

instance (N : Nat) : DecidablePred (Command.InRange N)
  | .enableDualWrite _ | .backfill _ | .verify _ | .switchRead _ | .cleanup _ =>
      inferInstanceAs (Decidable (_ ∧ _))
  | .disableDualWrite => inferInstanceAs (Decidable True)

/-- The cluster a computation leaves, whether it returned or raised. -/
def clusterAfter {α : Type} (x : ClusterM α) (c : DialogsCluster) : DialogsCluster :=
  match x c with
  | .ok _ c' => c'
  | .error _ c' => c'

namespace Ledger

/-- A completed send. `uuid4()` draws a message id that is in use nowhere. -/
def sendStep (l : Ledger) (fromId toId : Uuid) (text : String) (messageId : Uuid)
    (now : Nat → DateTime) : Option Ledger :=
  if (l.cluster.pools.any fun t => t.contains messageId) ∨
      messageId ∈ l.acked.map Message.messageId then none
  else
    match send fromId toId text messageId now l.cluster with
    | .ok _ c => some ⟨c, l.acked ++ [newMessage fromId toId text messageId]⟩
    | .error _ c => some ⟨c, l.acked⟩

/-- A command, run to its return or its exception. -/
def commandStep (l : Ledger) (cmd : Command) : Option Ledger :=
  if cmd.InRange l.cluster.nShards then some ⟨clusterAfter cmd.run l.cluster, l.acked⟩
  else none

/-- One step of the ledger. -/
def step : LedgerOp → Ledger → Option Ledger
  | .send fromId toId text messageId now, l => l.sendStep fromId toId text messageId now
  | .command cmd, l => l.commandStep cmd

/-- Every returned message is stored on at least one shard. -/
def Kept (l : Ledger) : Prop := ∀ m ∈ l.acked, ∃ i, l.cluster.Stores i m

/-- Where a run begins: flags the validator accepts, copies that agree, and every returned message on
the shard its chat is read from. -/
structure Begins (l : Ledger) : Prop where
  valid : l.cluster.Valid
  agree : l.cluster.CopiesAgree
  acked : ∀ m ∈ l.acked, ∃ idx, l.cluster.readPoolForChat m.chatId = .ok idx ∧
    l.cluster.Stores idx m

/-- What every step keeps, as long as cleanup is not run too early. -/
structure Inv (l : Ledger) : Prop where
  valid : l.cluster.Valid
  agree : l.cluster.CopiesAgree
  kept : l.Kept

theorem Begins.inv {l : Ledger} (h : l.Begins) : l.Inv where
  valid := h.valid
  agree := h.agree
  kept := by
    intro m hm
    obtain ⟨idx, -, hst⟩ := h.acked m hm
    exact ⟨idx, hst⟩

end Ledger

/-! ## One step -/

/-- Cleanup deletes only rows whose message id is on the shard `n` routes them to. -/
def DeletesOnlyCopies (n : Nat) (c c' : DialogsCluster) : Prop :=
  ∀ i, ∀ row ∈ (c.shard i).rows, row ∉ (c'.shard i).rows →
    (c.shard (route row.val.message.chatId n)).contains row.val.messageId = true

/-- The check of `cmd_verify(n)`, made on the shards that `cmd_cleanup(n)` clears. -/
def VerifyPasses (c : DialogsCluster) (n : Int) : Prop :=
  cmdVerify { c with readN := n } n = .ok ()

section Steps

variable {c c' : DialogsCluster} {n : Nat}

theorem verifyPasses_iff (h1 : 1 ≤ n) (hN : n ≤ c.nShards) :
    VerifyPasses c n ↔ ∀ src < n, ∀ row ∈ (c.shard src).rows, CopiedTo c n src row :=
  cmdVerify_ok_iff (c := { c with readN := (n : Int) }) (r := n) rfl hN h1 hN

/-- **Cleanup after its check.** With dual-write off, cleanup deletes only copies exactly when the
check of verify passes on the shards it clears. -/
theorem deletesOnlyCopies_iff (hdual : c.dualWrite = false) (h1 : 1 ≤ n) (hN : n ≤ c.nShards) :
    DeletesOnlyCopies n c (clusterAfter (cmdCleanup n) c) ↔ VerifyPasses c n := by
  obtain ⟨c', hok, -, -, -, -, hrows⟩ := cmdCleanup_spec hdual h1 hN
  have hafter : clusterAfter (cmdCleanup n) c = c' := by
    unfold clusterAfter
    rw [hok]
  rw [verifyPasses_iff h1 hN, hafter]
  constructor
  · intro h src hsrc row hrow
    by_cases hr : route row.val.message.chatId n = src
    · exact Or.inl hr
    · refine Or.inr (h src row hrow ?_)
      intro hkept
      exact hr (((hrows src row).mp hkept).2 hsrc)
  · intro h i row hrow hgone
    have hi : i < n ∧ route row.val.message.chatId n ≠ i := by
      by_contra hno
      refine hgone ((hrows i row).mpr ⟨hrow, fun hin => ?_⟩)
      by_contra hne
      exact hno ⟨hin, hne⟩
    rcases h i hi.1 row hrow with hr | hcopy
    · exact absurd hr hi.2
    · exact hcopy

/-- A cleanup that deletes only copies loses no message. -/
theorem exists_stores_cleanup (hagree : c.CopiesAgree) (hdual : c.dualWrite = false) (h1 : 1 ≤ n)
    (hN : n ≤ c.nShards) (hverify : VerifyPasses c n) {i : Nat} {m : Message}
    (hm : c.Stores i m) : ∃ j, (clusterAfter (cmdCleanup n) c).Stores j m := by
  obtain ⟨c', hok, -, -, -, -, hrows⟩ := cmdCleanup_spec hdual h1 hN
  have hafter : clusterAfter (cmdCleanup n) c = c' := by
    unfold clusterAfter
    rw [hok]
  rw [hafter]
  obtain ⟨row, hrow, rfl⟩ := hm
  by_cases hin : i < n
  · rcases (verifyPasses_iff h1 hN).mp hverify i hin row hrow with hr | hcopy
    · exact ⟨i, row, (hrows i row).mpr ⟨hrow, fun _ => hr⟩, rfl⟩
    · -- the copy on the target shard stays, since that shard is its own target
      obtain ⟨m', hm', hid⟩ := contains_iff_stores.mp hcopy
      obtain ⟨row', hrow', rfl⟩ := hm'
      have hsame : row'.val.message = row.val.message :=
        hagree ⟨row', hrow', rfl⟩ ⟨row, hrow, rfl⟩ hid
      exact ⟨_, row', (hrows _ row').mpr ⟨hrow', fun _ => by rw [hsame]⟩, hsame⟩
  · exact ⟨i, row, (hrows i row).mpr ⟨hrow, fun h => absurd h hin⟩, rfl⟩

/-- Changing the flags changes no shard. -/
theorem clusterAfter_reconfigure (r w : Option Int) (d : Option Bool) :
    clusterAfter (reconfigure r w d) c = c.assign r w d := by
  have hrun : reconfigure r w d c
      = liftExcept (c.assign r w d).validateReshardingState (c.assign r w d) := rfl
  unfold clusterAfter
  rw [hrun]
  unfold liftExcept
  cases (c.assign r w d).validateReshardingState with
  | ok a => rfl
  | error e => rfl

/-- What a command other than a cleanup that runs does: it keeps all rows, and adds copies only. -/
theorem keeps_of_not_cleanup (hvalid : c.Valid) (hagree : c.CopiesAgree) {cmd : Command}
    (hrange : cmd.InRange c.nShards) (hcmd : ∀ k, cmd = .cleanup k → c.dualWrite = true) :
    (clusterAfter cmd.run c).Valid ∧ (clusterAfter cmd.run c).CopiesAgree ∧
      ∀ i m, c.Stores i m → (clusterAfter cmd.run c).Stores i m := by
  cases cmd with
  | enableDualWrite k =>
      have hafter : clusterAfter (Command.enableDualWrite k).run c
          = c.assign none (some k) (some true) := clusterAfter_reconfigure _ _ _
      rw [hafter]
      exact ⟨⟨hvalid.readN, hrange⟩, hagree, fun _ _ h => h⟩
  | backfill k =>
      cases hdual : c.dualWrite with
      | false =>
          have hafter : clusterAfter (Command.backfill k).run c = c := by
            unfold clusterAfter
            rw [show (Command.backfill k).run c = _ from cmdBackfill_guard hdual]
          rw [hafter]
          exact ⟨hvalid, hagree, fun _ _ h => h⟩
      | true =>
          obtain ⟨n, rfl⟩ := Int.eq_ofNat_of_zero_le (show 0 ≤ k by have := hrange.1; omega)
          have hr := hvalid.readN
          have hn : 1 ≤ n ∧ n ≤ c.nShards := by
            have := hrange.1
            have := hrange.2
            omega
          obtain ⟨c', hok, hrun⟩ := cmdBackfill_eq_steps (n := n) hdual hvalid.readN_toNat hn.1
            hn.2 (by omega)
          have hcopies := (hrun.spec (Backfill.scans_start n _ (fun _ => False) c) hn.1 hn.2
            (by omega) hagree).1
          have hafter : clusterAfter (Command.backfill n).run c = c' := by
            unfold clusterAfter
            rw [show (Command.backfill n).run c = _ from hok]
          rw [hafter]
          refine ⟨⟨?_, ?_⟩, hcopies.copiesAgree hagree, fun i m h => hcopies.stores h⟩
          · rw [hcopies.readN, hcopies.nShards]
            exact hvalid.readN
          · rw [hcopies.writeN, hcopies.nShards]
            exact hvalid.writeN
  | verify k =>
      have hafter : clusterAfter (Command.verify k).run c = c := by
        unfold clusterAfter
        rw [show (Command.verify k).run c = liftExcept (cmdVerify c k) c from rfl]
        unfold liftExcept
        cases cmdVerify c k with
        | ok a => rfl
        | error e => rfl
      rw [hafter]
      exact ⟨hvalid, hagree, fun _ _ h => h⟩
  | switchRead k =>
      have hafter : clusterAfter (Command.switchRead k).run c = c.assign (some k) none none :=
        clusterAfter_reconfigure _ _ _
      rw [hafter]
      exact ⟨⟨hrange, hvalid.writeN⟩, hagree, fun _ _ h => h⟩
  | disableDualWrite =>
      have hafter : clusterAfter Command.disableDualWrite.run c
          = c.assign none none (some false) := clusterAfter_reconfigure _ _ _
      rw [hafter]
      exact ⟨⟨hvalid.readN, hvalid.writeN⟩, hagree, fun _ _ h => h⟩
  | cleanup k =>
      have hafter : clusterAfter (Command.cleanup k).run c = c := by
        unfold clusterAfter
        rw [show (Command.cleanup k).run c = _ from cmdCleanup_guard (hcmd k rfl)]
      rw [hafter]
      exact ⟨hvalid, hagree, fun _ _ h => h⟩

end Steps

namespace Ledger

variable {l l' : Ledger}

/-- A completed send stores its message. -/
theorem Inv.send (h : l.Inv) {fromId toId messageId : Uuid} {text : String}
    {now : Nat → DateTime}
    (hstep : l.sendStep fromId toId text messageId now = some l') : l'.Inv := by
  unfold sendStep at hstep
  simp only [send_eq (h.valid.writePoolsForChat (computeChatId fromId toId))] at hstep
  split_ifs at hstep with hid
  obtain rfl := Option.some.inj hstep
  obtain ⟨m, hm⟩ : ∃ m, m = newMessage fromId toId text messageId := ⟨_, rfl⟩
  have hmid : m.messageId = messageId := by rw [hm]; rfl
  rw [← hm]
  have hunused : ∀ i x, l.cluster.Stores i x → x.messageId ≠ m.messageId := by
    intro i x hx hxid
    refine hid (Or.inl (List.any_eq_true.mpr ⟨l.cluster.shard i, ?_, ?_⟩))
    · have hi : i < l.cluster.pools.length := hx.lt_nShards
      rw [shard_eq_getElem hi]
      exact List.getElem_mem hi
    · exact contains_iff_stores.mpr ⟨x, hx, hxid.trans hmid⟩
  have hcopies : l.cluster.OnlyCopies m := fun i x hx hxid => absurd hxid (hunused i x hx)
  have hstores := fun i x => @stores_insertAll l.cluster
    (l.cluster.writeRoutes (computeChatId fromId toId)) m x i hcopies now
  have hflags := flags_insertAll l.cluster
    (l.cluster.writeRoutes (computeChatId fromId toId)) m now
  have hn := nShards_insertAll l.cluster
    (l.cluster.writeRoutes (computeChatId fromId toId)) m now
  refine ⟨⟨?_, ?_⟩, ?_, ?_⟩
  · rw [hflags.1, hn]
    exact h.valid.readN
  · rw [hflags.2.1, hn]
    exact h.valid.writeN
  · intro i j x y hx hy hxy
    rcases (hstores i x).mp hx with hxold | ⟨hxm, -⟩
    · rcases (hstores j y).mp hy with hyold | ⟨hym, -⟩
      · exact h.agree hxold hyold hxy
      · exact absurd (hym ▸ hxy) (hunused i x hxold)
    · rcases (hstores j y).mp hy with hyold | ⟨hym, -⟩
      · exact absurd (hxm ▸ hxy.symm) (hunused j y hyold)
      · rw [hxm, hym]
  · intro x hx
    rcases List.mem_append.mp hx with hx | hx
    · obtain ⟨i, hi⟩ := h.kept x hx
      exact ⟨i, (hstores i x).mpr (Or.inl hi)⟩
    · rw [List.mem_singleton.mp hx]
      have hw : route (computeChatId fromId toId) l.cluster.writeN.toNat
          ∈ l.cluster.writeRoutes (computeChatId fromId toId) := by
        unfold writeRoutes
        simp only
        split_ifs <;> simp
      exact ⟨_, (hstores _ _).mpr (Or.inr ⟨rfl, hw, h.valid.lt_of_mem_writeRoutes hw⟩)⟩

/-- A step keeps the invariant, if a cleanup that its guard lets run has its check passed. -/
theorem Inv.step (h : l.Inv) {op : LedgerOp} (hstep : Ledger.step op l = some l')
    (hcleanup : ∀ n, op = .command (.cleanup n) → l.cluster.dualWrite = false →
      VerifyPasses l.cluster n) : l'.Inv := by
  cases op with
  | send fromId toId text messageId now => exact h.send hstep
  | command cmd =>
      have hstep : l.commandStep cmd = some l' := hstep
      unfold commandStep at hstep
      split_ifs at hstep with hrange
      obtain rfl := Option.some.inj hstep
      by_cases hrun : ∃ n, cmd = .cleanup n ∧ l.cluster.dualWrite = false
      · obtain ⟨k, rfl, hdual⟩ := hrun
        obtain ⟨n, rfl⟩ := Int.eq_ofNat_of_zero_le (show 0 ≤ k by have := hrange.1; omega)
        have hn : 1 ≤ n ∧ n ≤ l.cluster.nShards := by
          have := hrange.1
          have := hrange.2
          omega
        have hverify := hcleanup n rfl hdual
        obtain ⟨c', hok, hcn, hcr, hcw, -, hrows⟩ := cmdCleanup_spec hdual hn.1 hn.2
        have hafter : clusterAfter (Command.cleanup n).run l.cluster = c' := by
          unfold clusterAfter
          rw [show (Command.cleanup n).run l.cluster = _ from hok]
        refine ⟨?_, ?_, ?_⟩
        · rw [hafter]
          refine ⟨?_, ?_⟩
          · rw [hcr, hcn]
            exact h.valid.readN
          · rw [hcw, hcn]
            exact h.valid.writeN
        · rw [hafter]
          rintro i j _ _ ⟨r, hr, rfl⟩ ⟨r', hr', rfl⟩ hid
          exact h.agree ⟨r, ((hrows i r).mp hr).1, rfl⟩ ⟨r', ((hrows j r').mp hr').1, rfl⟩ hid
        · intro m hm
          obtain ⟨i, hi⟩ := h.kept m hm
          exact exists_stores_cleanup h.agree hdual hn.1 hn.2 hverify hi
      · have hcmd : ∀ k, cmd = .cleanup k → l.cluster.dualWrite = true := by
          intro k hk
          by_contra hdual
          exact hrun ⟨k, hk, by simpa using hdual⟩
        obtain ⟨hvalid, hagree, hstores⟩ := keeps_of_not_cleanup h.valid h.agree hrange hcmd
        refine ⟨hvalid, hagree, ?_⟩
        intro m hm
        obtain ⟨i, hi⟩ := h.kept m hm
        exact ⟨i, hstores i m hi⟩

/-! ## Whole runs -/

/-- **The run lemma**: the invariant holds after every part of a run whose cleanups come after their
check. -/
theorem Inv.run {ops : List LedgerOp} (h : l.Inv)
    (hcleanup : ∀ pre n l₁, pre ++ [.command (.cleanup n)] <+: ops → exec Ledger.step pre l = some l₁ →
      l₁.cluster.dualWrite = false → VerifyPasses l₁.cluster n)
    {pre : List LedgerOp} (hpre : pre <+: ops) {l₁ : Ledger} (hrun : exec Ledger.step pre l = some l₁) :
    l₁.Inv := by
  induction pre using List.reverseRecOn generalizing l₁ with
  | nil =>
      obtain rfl : l = l₁ := Option.some.inj hrun
      exact h
  | append_singleton pre op ih =>
      obtain ⟨l₂, hrun₂, hlast⟩ := exec_append_eq_some.mp hrun
      obtain ⟨l₃, hop, hend⟩ := exec_cons_eq_some.mp hlast
      obtain rfl : l₃ = l₁ := Option.some.inj hend
      refine (ih ((List.prefix_append pre [op]).trans hpre) hrun₂).step hop ?_
      rintro n rfl hdual
      exact hcleanup pre n l₂ hpre hrun₂ hdual

/-- **When the guards keep every message.** Through a run of sends and commands in any order, every
returned message stays stored and every cleanup deletes only copies, if and only if each cleanup that
its guard lets run finds shards on which the check of verify passes. -/
theorem messages_kept_iff {ops : List LedgerOp} (h : l.Begins) (hrun : exec step ops l = some l') :
    ((∀ pre l₁, pre <+: ops → exec step pre l = some l₁ → l₁.Kept) ∧
      (∀ pre n l₁, pre ++ [.command (.cleanup n)] <+: ops → exec step pre l = some l₁ →
        l₁.cluster.dualWrite = false →
          DeletesOnlyCopies n.toNat l₁.cluster (clusterAfter (cmdCleanup n) l₁.cluster))) ↔
      ∀ pre n l₁, pre ++ [.command (.cleanup n)] <+: ops → exec step pre l = some l₁ →
        l₁.cluster.dualWrite = false → VerifyPasses l₁.cluster n := by
  -- a cleanup of the run has a shard count of the cluster
  have hrange : ∀ pre (n : Int) l₁, pre ++ [.command (.cleanup n)] <+: ops →
      exec step pre l = some l₁ → 1 ≤ n ∧ n ≤ l₁.cluster.nShards := by
    rintro pre n l₁ ⟨post, rfl⟩ hpre
    rw [List.append_assoc] at hrun
    obtain ⟨l₂, hpre', hrest⟩ := exec_append_eq_some.mp hrun
    obtain rfl : l₂ = l₁ := Option.some.inj (hpre'.symm.trans hpre)
    obtain ⟨l₃, hop, -⟩ := exec_cons_eq_some.mp hrest
    have hop : l₂.commandStep (.cleanup n) = some l₃ := hop
    unfold commandStep at hop
    split_ifs at hop with hin
    exact hin
  have hcopies : ∀ pre (n : Int) l₁, pre ++ [.command (.cleanup n)] <+: ops →
      exec step pre l = some l₁ → l₁.cluster.dualWrite = false →
        (DeletesOnlyCopies n.toNat l₁.cluster (clusterAfter (cmdCleanup n) l₁.cluster) ↔
          VerifyPasses l₁.cluster n) := by
    intro pre n l₁ hops hpre hdual
    have hn := hrange pre n l₁ hops hpre
    obtain ⟨k, rfl⟩ := Int.eq_ofNat_of_zero_le (show 0 ≤ n by omega)
    exact deletesOnlyCopies_iff hdual (by omega) (by omega)
  constructor
  · rintro ⟨-, hdel⟩ pre n l₁ hops hpre hdual
    exact (hcopies pre n l₁ hops hpre hdual).mp (hdel pre n l₁ hops hpre hdual)
  · intro hverify
    refine ⟨?_, ?_⟩
    · intro pre l₁ hpre hrun₁
      exact (h.inv.run hverify hpre hrun₁).kept
    · intro pre n l₁ hops hpre hdual
      exact (hcopies pre n l₁ hops hpre hdual).mpr (hverify pre n l₁ hops hpre hdual)

theorem begins_fresh {N n : Nat} (h1 : 1 ≤ n) (hN : n ≤ N) : Begins ⟨fresh N n, []⟩ where
  valid := by
    have hn : (fresh N n).nShards = N := by simp [fresh, nShards]
    refine ⟨?_, ?_⟩
    · show (1 : Int) ≤ n ∧ (n : Int) ≤ (fresh N n).nShards
      omega
    · show (1 : Int) ≤ n ∧ (n : Int) ≤ (fresh N n).nShards
      omega
  agree := by
    rintro i j m m' ⟨r, hr, -⟩
    rw [shard_fresh] at hr
    exact absurd hr List.not_mem_nil
  acked := fun m hm => absurd hm List.not_mem_nil

/-- One message, then a cleanup for three shards without a backfill before it. -/
def hastyCleanup : List LedgerOp :=
  [.send (.ofNat 1) (.ofNat 2) "a" (.ofNat 11) fun _ => nineOnDay 1 first_day, .command (.cleanup 3)]

/-- **The guard of cleanup lets it delete the only copy of a message.** -/
theorem hastyCleanup_loses :
    ∃ l, Begins ⟨fresh 3 2, []⟩ ∧ exec step hastyCleanup ⟨fresh 3 2, []⟩ = some l ∧
      l.acked.map Message.body = ["a"] ∧ ¬ l.Kept := by
  have hrun : ((exec step hastyCleanup ⟨fresh 3 2, []⟩).map fun l =>
      (l.acked.map Message.body, l.cluster.pools.all fun t => t.rows.isEmpty))
      = some (["a"], true) := by
    decide +kernel
  obtain ⟨l, hl, heq⟩ := Option.map_eq_some_iff.mp hrun
  simp only [Prod.mk.injEq, List.all_eq_true, List.isEmpty_iff] at heq
  refine ⟨l, begins_fresh (by decide) (by decide), hl, heq.1, ?_⟩
  intro hkept
  obtain ⟨m, hm⟩ : ∃ m, m ∈ l.acked := by
    cases hacked : l.acked with
    | nil => simp [hacked] at heq
    | cons m ms => exact ⟨m, List.mem_cons_self⟩
  obtain ⟨i, hst⟩ := hkept m hm
  have hi : i < l.cluster.pools.length := hst.lt_nShards
  obtain ⟨r, hr, -⟩ := hst
  rw [shard_eq_getElem hi, heq.2 _ (List.getElem_mem hi)] at hr
  exact absurd hr List.not_mem_nil

/-- One message, then the documented sequence from two shards to three. -/
def documentedRun : List LedgerOp :=
  [.send (.ofNat 1) (.ofNat 2) "a" (.ofNat 11) fun _ => nineOnDay 1 first_day,
    .command (.enableDualWrite 3), .command (.backfill 3), .command (.verify 3),
    .command (.switchRead 3), .command .disableDualWrite, .command (.cleanup 3)]

/-- The rows of each shard, counted. -/
def rowCounts (l : Ledger) : List Nat := l.cluster.pools.map fun t => t.rows.length

/-- The message moves from the second shard to the third, where the cleanup finds its copy, deletes the old
row and keeps the message. -/
theorem documentedRun_keeps :
    (exec step (documentedRun.take 6) ⟨fresh 3 2, []⟩).map rowCounts = some [0, 1, 1] ∧
      ∃ l, exec step documentedRun ⟨fresh 3 2, []⟩ = some l ∧ l.acked.map Message.body = ["a"] ∧
        rowCounts l = [0, 0, 1] ∧ l.Kept := by
  have hbefore : (exec step (documentedRun.take 6) ⟨fresh 3 2, []⟩).map (fun l =>
      (rowCounts l, cmdVerify { l.cluster with readN := 3 } 3)) = some ([0, 1, 1], .ok ()) := by
    decide +kernel
  have hrun : (exec step documentedRun ⟨fresh 3 2, []⟩).map (fun l =>
      (l.acked.map Message.body, rowCounts l)) = some (["a"], [0, 0, 1]) := by
    decide +kernel
  obtain ⟨l₂, hl₂, hchecked⟩ := Option.map_eq_some_iff.mp hbefore
  obtain ⟨l, hl, hafter⟩ := Option.map_eq_some_iff.mp hrun
  obtain ⟨hcounts, hok⟩ := Prod.mk.inj hchecked
  obtain ⟨hbody, hleft⟩ := Prod.mk.inj hafter
  refine ⟨by rw [hl₂, Option.map_some, hcounts], l, hl, hbody, hleft, ?_⟩
  refine ((messages_kept_iff (begins_fresh (by decide) (by decide)) hl).mpr ?_).1 documentedRun l
    List.prefix_rfl hl
  rintro pre n l₁ ⟨post, hops⟩ hpre -
  -- the only cleanup of the run is its last step
  have hget : documentedRun[pre.length]? = some (.command (.cleanup n)) := by
    rw [← hops, List.append_assoc, List.getElem?_append_right le_rfl, Nat.sub_self]
    rfl
  have hlength : pre.length < 7 := by
    have hlen := congrArg List.length hops
    simp only [List.length_append, List.length_cons, documentedRun] at hlen
    omega
  have hsix : pre.length = 6 ∧ n = 3 := by
    interval_cases pre.length <;> cases hget
    exact ⟨rfl, rfl⟩
  obtain ⟨hsix, rfl⟩ := hsix
  have htake : pre = documentedRun.take 6 := by
    rw [← hops, ← hsix, List.append_assoc, List.take_left]
  rw [htake] at hpre
  obtain rfl := Option.some.inj (hpre.symm.trans hl₂)
  exact hok

end Ledger

end HighLoad.Dialogs
