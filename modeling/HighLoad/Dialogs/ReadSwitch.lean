/-
# HighLoad.Dialogs.ReadSwitch — what readers see of the switch

After dual-write, backfill and verify every message of a chat that moves is on two shards, and
`switch_read` replaces the copy `list` reads. The copy that backfill makes carries the `created_at`
of the row it copies; the INSERT of `send` omits the column, so each shard stamps its row with its
own `now()`.

`Synchronised` is what a schedule asks of those INSERTs: the row comes with the timestamp of the
copy on the old shard, and behind every copy with that timestamp that lies before it there. A run
that keeps to it ends with the old shard mirrored on the new one, row for row and tie for tie, and
the switch shows on no page of any chat (`switch_invisible`). One INSERT with another timestamp
shows it (`switch_shows_clocks`).
-/
import HighLoad.Dialogs.Backfill
import HighLoad.Dialogs.LateSends

namespace HighLoad.Dialogs

open DialogsCluster

/-- The commands up to the check that the copies are there. -/
def untilVerified (newN : Int) : List Command :=
  [.enableDualWrite newN, .backfill newN, .verify newN]

/-- Shard `idx` may take `x` now: the shard that `old` routes it to has a row for `x`, timestamp
included, and every earlier row of the chat there with that timestamp has its copy on `idx`. -/
def CopiedInOrder (old : Nat) (c : DialogsCluster) (idx : Nat) (x : StoredMessage) : Prop :=
  ∃ r ∈ (c.shard (route x.message.chatId old)).rows, r.val = x ∧
    ∀ r' ∈ (c.shard (route x.message.chatId old)).rows,
      r'.val.message.chatId = x.message.chatId → r'.val.createdAt = x.createdAt → r'.id < r.id →
        (c.shard idx).contains r'.val.messageId = true

instance (old : Nat) (c : DialogsCluster) (idx : Nat) (x : StoredMessage) :
    Decidable (CopiedInOrder old c idx x) :=
  inferInstanceAs (Decidable (∃ r ∈ (c.shard (route x.message.chatId old)).rows, r.val = x ∧ _))

/-- The INSERT of `x` on shard `idx` keeps the new shard in step with the old one: it goes to the
old shard, or finds a row of its message, or comes in order. -/
def InStep (old : Nat) (c : DialogsCluster) (idx : Nat) (x : StoredMessage) : Prop :=
  idx = route x.message.chatId old ∨ (c.shard idx).contains x.messageId = true ∨
    CopiedInOrder old c idx x

instance (old : Nat) (c : DialogsCluster) (idx : Nat) (x : StoredMessage) :
    Decidable (InStep old c idx x) :=
  inferInstanceAs (Decidable (_ ∨ _ ∨ _))

/-- The next INSERT of a call, with the timestamp the shard gives it, is in step. -/
def CallInStep (old : Nat) (c : DialogsCluster) (now : DateTime) : Option SendCall → Prop
  | some ⟨m, idx :: _⟩ => InStep old c idx ⟨m, now⟩
  | some ⟨_, []⟩ => True
  | none => True

instance (old : Nat) (c : DialogsCluster) (now : DateTime) : DecidablePred (CallInStep old c now)
  | some ⟨m, idx :: _⟩ => inferInstanceAs (Decidable (InStep old c idx ⟨m, now⟩))
  | some ⟨_, []⟩ => isTrue trivial
  | none => isTrue trivial

/-- An INSERT of the run is in step; no other action is asked for anything. -/
def Synchronised (old : Nat) : Action → System → Prop
  | .insert call now, s => CallInStep old s.cluster now s.inflight[call]?
  | _, _ => True

instance (old : Nat) : ∀ a s, Decidable (Synchronised old a s)
  | .insert call now, s =>
      inferInstanceAs (Decidable (CallInStep old s.cluster now s.inflight[call]?))
  | .send _ _ _ _, _ => isTrue trivial
  | .sendReturns _, _ => isTrue trivial
  | .command, _ => isTrue trivial
  | .backfill, _ => isTrue trivial

/-! ## The new shard mirrors the old one -/

/-- The row `r` of shard `d` copies a row of the old shard, and every earlier row of the chat there
with that timestamp has its copy before `r`. -/
def Mirrored (old : Nat) (c : DialogsCluster) (d : Nat) (r : Row) : Prop :=
  ∃ origin ∈ (c.shard (route r.val.message.chatId old)).rows, origin.val = r.val ∧
    ∀ r' ∈ (c.shard (route r.val.message.chatId old)).rows,
      r'.val.message.chatId = r.val.message.chatId → r'.val.createdAt = r.val.createdAt →
        r'.id < origin.id → ∃ copy ∈ (c.shard d).rows, copy.val = r'.val ∧ copy.id < r.id

/-- Every row on its new shard is mirrored there. -/
def Mirrors (old new : Nat) (c : DialogsCluster) : Prop :=
  ∀ d, ∀ r ∈ (c.shard d).rows, route r.val.message.chatId new = d → Mirrored old c d r

section Mirroring

variable {old new : Nat} {c c' : DialogsCluster}

/-- A row on its old shard is its own copy. -/
theorem mirrored_self {d : Nat} {r : Row} (hr : r ∈ (c.shard d).rows)
    (hd : route r.val.message.chatId old = d) : Mirrored old c d r := by
  subst hd
  exact ⟨r, hr, rfl, fun r' hr' _ _ hlt => ⟨r', hr', rfl, hlt⟩⟩

theorem Mirrors.congr (h : Mirrors old new c) (hshard : ∀ i, c'.shard i = c.shard i) :
    Mirrors old new c' := by
  intro d r hr hd
  unfold Mirrored
  simp only [hshard] at hr ⊢
  exact h d r hr hd

/-- A row that an INSERT brings has a larger id than the rows of its shard. -/
theorem id_lt_of_mem_insertMessage {idx i : Nat} {x : StoredMessage} {r r' : Row}
    (hr : r ∈ (c.shard i).rows) (hr' : r' ∈ ((c.insertMessage idx x).shard i).rows)
    (hnew : r' ∉ (c.shard i).rows) : r.id < r'.id := by
  rcases mem_rows_insertMessage.mp hr' with hr' | ⟨rfl, -, -, rfl⟩
  · exact absurd hr' hnew
  · exact ((c.shard i).bounds r hr).2

/-- A mirrored row stays mirrored when rows come behind it. -/
theorem Mirrored.insertMessage {d : Nat} {r : Row} (h : Mirrored old c d r) (idx : Nat)
    (x : StoredMessage) : Mirrored old (c.insertMessage idx x) d r := by
  obtain ⟨origin, horigin, hval, hbefore⟩ := h
  refine ⟨origin, mem_rows_insertMessage.mpr (Or.inl horigin), hval, ?_⟩
  intro r' hr' hchat htime hlt
  by_cases hold : r' ∈ (c.shard (route r.val.message.chatId old)).rows
  · obtain ⟨copy, hcopy, hcopyval, hcopyid⟩ := hbefore r' hold hchat htime hlt
    exact ⟨copy, mem_rows_insertMessage.mpr (Or.inl hcopy), hcopyval, hcopyid⟩
  · have hgt := id_lt_of_mem_insertMessage horigin hr' hold
    omega

/-- **An INSERT in step keeps the mirror.** -/
theorem Mirrors.insertMessage (h : Mirrors old new c) (hagree : c.CopiesAgree) {idx : Nat}
    {x : StoredMessage} (hstep : InStep old c idx x) : Mirrors old new (c.insertMessage idx x) := by
  intro d r hr hd
  rcases mem_rows_insertMessage.mp hr with hr₀ | ⟨rfl, -, habsent, rfl⟩
  · exact (h d r hr₀ hd).insertMessage idx x
  · rcases hstep with hold | hcontains | ⟨origin, horigin, hval, hbefore⟩
    · exact mirrored_self hr hold.symm
    · rw [habsent] at hcontains
      exact absurd hcontains (by decide)
    · refine ⟨origin, mem_rows_insertMessage.mpr (Or.inl horigin), hval, ?_⟩
      intro r' hr' hchat htime hlt
      by_cases hmem : r' ∈ (c.shard (route x.message.chatId old)).rows
      · -- the copy that is there already is a mirrored one, hence a copy of `r'`
        obtain ⟨copy, hcopy, hid⟩ :=
          ((c.shard d).contains_iff _).mp (hbefore r' hmem hchat htime hlt)
        have hmessage : copy.val.message = r'.val.message :=
          hagree ⟨copy, hcopy, rfl⟩ ⟨r', hmem, rfl⟩ hid
        have hcopychat : copy.val.message.chatId = x.message.chatId := by rw [hmessage, hchat]
        obtain ⟨source, hsource, hsourceval, -⟩ := h d copy hcopy (by rw [hcopychat]; exact hd)
        rw [hcopychat] at hsource
        have hsame : source = r' :=
          (c.shard _).row_eq_of_key_eq hsource hmem (by rw [hsourceval]; exact hid)
        refine ⟨copy, mem_rows_insertMessage.mpr (Or.inl hcopy), ?_,
          ((c.shard d).bounds copy hcopy).2⟩
        rw [← hsourceval, hsame]
      · have hgt := id_lt_of_mem_insertMessage horigin hr' hmem
        omega

/-! ### The order of the scan -/

/-- The scan goes through its shard in the order of the ids: the page is ascending and ends at
`last_id`, and every row up to there is on the page or on its new shard. -/
structure Backfill.InOrder (b : Backfill) (new : Nat) (c : DialogsCluster) : Prop where
  ascending : b.page.Pairwise fun r s => r.id < s.id
  below : ∀ r ∈ b.page, r.id ≤ b.lastId
  onRow : b.OnRow c
  passed : ∀ r ∈ (c.shard b.srcIdx).rows, r.id ≤ b.lastId → r ∈ b.page ∨
    (c.shard (route r.val.message.chatId new)).contains r.val.messageId = true

theorem Backfill.inOrder_start (n : Int) (oldN : Nat) (c : DialogsCluster) :
    (Backfill.start n oldN).InOrder new c where
  ascending := List.Pairwise.nil
  below := fun _ hr => absurd hr List.not_mem_nil
  onRow := Or.inl rfl
  passed := by
    intro r hr hle
    have hpos := ((c.shard _).bounds r hr).1
    have hzero : (Backfill.start n oldN).lastId = 0 := rfl
    omega

theorem Backfill.InOrder.congr {b : Backfill} (h : b.InOrder new c)
    (hshard : ∀ i, c'.shard i = c.shard i) : b.InOrder new c' where
  ascending := h.ascending
  below := h.below
  onRow := by
    unfold Backfill.OnRow
    rw [hshard]
    exact h.onRow
  passed := by
    intro r hr hle
    rw [hshard] at hr ⊢
    exact h.passed r hr hle

/-- An INSERT comes behind the cursor's row. -/
theorem Backfill.InOrder.insertMessage {b : Backfill} (h : b.InOrder new c) (idx : Nat)
    (x : StoredMessage) : b.InOrder new (c.insertMessage idx x) where
  ascending := h.ascending
  below := h.below
  onRow := h.onRow.mono fun _ _ hr => mem_rows_insertMessage.mpr (Or.inl hr)
  passed := by
    intro r hr hle
    rcases mem_rows_insertMessage.mp hr with hr | ⟨hsrc, -, -, rfl⟩
    · refine (h.passed r hr hle).imp_right (contains_of_subset fun r' hr' => ?_)
      exact mem_rows_insertMessage.mpr (Or.inl hr')
    · have hlt := h.onRow.lt_nextId
      rw [hsrc] at hlt
      have hle' : (c.shard idx).nextId ≤ b.lastId := hle
      omega

/-- **Every await keeps the order of the scan.** -/
theorem Backfill.InOrder.step {b b' : Backfill} {oldN : Nat} {exempt : Message → Prop}
    (h : b.InOrder new c) (hscan : b.Scans new oldN exempt c) (hnew : 1 ≤ new)
    (hnN : new ≤ c.nShards) (hoN : oldN ≤ c.nShards)
    (hstep : backfillStep b c = .ok (some b') c') : b'.InOrder new c' := by
  have hoN' : b.oldN ≤ c.nShards := by rw [hscan.oldN_eq]; exact hoN
  rcases backfillStep_inv hscan.newN_eq hnew hnN hoN' hstep with ⟨row, rest, hpage, hnext, rfl⟩ |
    ⟨hpage, -, -, hnext, rfl⟩ | ⟨hpage, -, last, hlast, hnext, rfl⟩ | ⟨-, -, hnext, -⟩
  · obtain rfl := Option.some.inj hnext
    have hrow : row ∈ (c.shard b.srcIdx).rows :=
      hscan.page_rows row (by rw [hpage]; exact List.mem_cons_self)
    have hkeeps : ∀ ⦃i : Nat⦄ ⦃r : Row⦄, r ∈ (c.shard i).rows →
        r ∈ ((copied new b.srcIdx c row).shard i).rows := (copies_copied hrow).keeps
    have hasc := h.ascending
    rw [hpage] at hasc
    refine ⟨(List.pairwise_cons.mp hasc).2, ?_, h.onRow.mono hkeeps, ?_⟩
    · intro r hr
      exact h.below r (by rw [hpage]; exact List.mem_cons_of_mem row hr)
    · intro r hr hle
      have hr₀ : r ∈ (c.shard b.srcIdx).rows := by
        rw [← shard_copied_self new b.srcIdx c row]
        exact hr
      rcases h.passed r hr₀ hle with hin | hcontains
      · rw [hpage] at hin
        rcases List.mem_cons.mp hin with rfl | hin
        · exact Or.inr (contains_copied hnew hnN hrow)
        · exact Or.inl hin
      · exact Or.inr (contains_of_subset (@hkeeps _) hcontains)
  · obtain rfl := Option.some.inj hnext
    refine ⟨by rw [hpage]; exact List.Pairwise.nil, ?_, Or.inl rfl, ?_⟩
    · intro r hr
      have hr' : r ∈ b.page := hr
      rw [hpage] at hr'
      exact absurd hr' List.not_mem_nil
    · intro r hr hle
      have hpos := ((c'.shard (b.srcIdx + 1)).bounds r hr).1
      have hle' : r.id ≤ 0 := hle
      omega
  · obtain rfl := Option.some.inj hnext
    refine ⟨(c'.shard _).page_ascending _ _, fun r hr => SerialTable.id_le_of_mem_page hlast hr,
      Or.inr ⟨last, (SerialTable.mem_of_mem_page (List.mem_of_getLast? hlast)).1, rfl⟩, ?_⟩
    intro r hr hle
    by_cases hpassed : r.id ≤ b.lastId
    · rcases h.passed r hr hpassed with hin | hcontains
      · rw [hpage] at hin
        exact absurd hin List.not_mem_nil
      · exact Or.inr hcontains
    · rcases SerialTable.page_covers hlast hr (by omega) with hin | hlt
      · exact Or.inl hin
      · have hle' : r.id ≤ last.id := hle
        omega
  · cases hnext

/-- **The copy of a row keeps the mirror**: the rows before it on its shard have been copied. -/
theorem Mirrors.copied {b : Backfill} {oldN : Nat} {exempt : Message → Prop} {row : Row}
    {rest : List Row} (h : Mirrors old new c) (hagree : c.CopiesAgree)
    (horder : b.InOrder new c) (hscan : b.Scans new oldN exempt c)
    (hplaced : ∀ i m, c.Stores i m → i = route m.chatId old ∨ i = route m.chatId new)
    (hpage : b.page = row :: rest) : Mirrors old new (Dialogs.copied new b.srcIdx c row) := by
  have hhead : row ∈ b.page := by rw [hpage]; exact List.mem_cons_self
  have hrow : row ∈ (c.shard b.srcIdx).rows := hscan.page_rows row hhead
  simp only [Dialogs.copied]
  split_ifs with hdst
  · exact h
  · -- the row is on its old shard, since it is not on its new one
    have hsrc : b.srcIdx = route row.val.message.chatId old := by
      rcases hplaced _ _ ⟨row, hrow, rfl⟩ with hsrc | hsrc
      · exact hsrc
      · exact absurd hsrc.symm hdst
    refine h.insertMessage hagree (Or.inr (Or.inr ⟨row, hsrc ▸ hrow, rfl, ?_⟩))
    intro r' hr' hchat _ hlt
    rw [← hsrc] at hr'
    have hle := horder.below row hhead
    rcases horder.passed r' hr' (by omega) with hin | hcontains
    · -- the page is ascending, so nothing on it comes before its head
      have hasc := horder.ascending
      rw [hpage] at hasc hin
      rcases List.mem_cons.mp hin with rfl | hin
      · omega
      · have hgt := (List.pairwise_cons.mp hasc).1 r' hin
        omega
    · rw [hchat] at hcontains
      exact hcontains

end Mirroring

/-! ## The mirror in a run -/

/-- Everything but cleanup leaves the rows where they are. -/
theorem Command.run_shards {cmd : Command} (hcmd : System.isBackfill cmd = false)
    (hclean : ∀ n, cmd ≠ .cleanup n) (c : DialogsCluster) :
    (∃ c', cmd.run c = .ok () c' ∧ ∀ i, c'.shard i = c.shard i) ∨
      ∃ e c', cmd.run c = .error e c' ∧ ∀ i, c'.shard i = c.shard i := by
  have hflags : ∀ (r w : Option Int) (d : Option Bool),
      (∃ c', reconfigure r w d c = .ok () c' ∧ ∀ i, c'.shard i = c.shard i) ∨
        ∃ e c', reconfigure r w d c = .error e c' ∧ ∀ i, c'.shard i = c.shard i := by
    intro r w d
    have hrun : reconfigure r w d c
        = liftExcept (c.assign r w d).validateReshardingState (c.assign r w d) := rfl
    rw [hrun]
    cases (c.assign r w d).validateReshardingState with
    | ok _ => exact Or.inl ⟨_, rfl, fun _ => rfl⟩
    | error e => exact Or.inr ⟨e, _, rfl, fun _ => rfl⟩
  cases cmd with
  | enableDualWrite n => exact hflags none (some n) (some true)
  | backfill n => exact absurd hcmd (by simp [System.isBackfill])
  | verify n =>
      show (∃ c', (get >>= fun c => liftExcept (cmdVerify c n)) c = .ok () c' ∧ _) ∨
        ∃ e c', (get >>= fun c => liftExcept (cmdVerify c n)) c = .error e c' ∧ _
      rw [bind_eq_of_ok (get_eq c)]
      cases cmdVerify c n with
      | ok _ => exact Or.inl ⟨c, rfl, fun _ => rfl⟩
      | error e => exact Or.inr ⟨e, c, rfl, fun _ => rfl⟩
  | switchRead n => exact hflags (some n) none none
  | disableDualWrite => exact hflags none none (some false)
  | cleanup n => exact absurd rfl (hclean n)

/-- What the operator's next command does to the rows and to the running backfill. -/
theorem System.runCommand_shards {s : System} {cmd : Command} (hidle : s.running = none)
    (hclean : ∀ n, cmd ≠ .cleanup n) :
    (∀ i, (s.runCommand cmd).cluster.shard i = s.cluster.shard i) ∧
      ∀ b, (s.runCommand cmd).running = some b → ∃ n oldN, b = Backfill.start n oldN := by
  cases hcmd : System.isBackfill cmd with
  | true =>
      cases cmd with
      | backfill n =>
          unfold System.runCommand System.startBackfill
          split_ifs with hdual
          · exact ⟨fun _ => rfl, fun b hb => ⟨_, _, (Option.some.inj hb).symm⟩⟩
          · exact ⟨fun _ => rfl, fun b hb => absurd hb (by simp [System.abort])⟩
      | _ => exact absurd hcmd (by simp [System.isBackfill])
  | false =>
      rcases Command.run_shards hcmd hclean s.cluster with ⟨c', hok, hshard⟩ |
        ⟨e, c', herr, hshard⟩
      · rw [System.runCommand_of_ok hcmd hok]
        refine ⟨hshard, fun b hb => ?_⟩
        have hb' : s.running = some b := hb
        rw [hidle] at hb'
        cases hb'
      · have habort : s.runCommand cmd = s.abort c' e := by
          cases cmd with
          | backfill n => exact absurd hcmd (by simp [System.isBackfill])
          | _ =>
              unfold System.runCommand
              simp only [herr]
        rw [habort]
        exact ⟨hshard, fun b hb => absurd hb (by simp [System.abort])⟩

/-- **What holds until the reads are switched**, when every INSERT is in step. -/
structure MirrorInv (N old new : Nat) (φ : Phase) (s : System) : Prop where
  phase : PhaseInv N old new φ s
  admits : Admits new φ.settled s.script .copied
  mirrors : Mirrors old new s.cluster
  scan : ∀ b, s.running = some b → b.InOrder new s.cluster

section Runs

variable {N old new : Nat} {φ : Phase} {s s' : System}

/-- The phases before the switch read the old shards. -/
theorem Phase.early_of_admits {script : List Command} (h : Admits new φ.settled script .copied) :
    φ ∈ [Phase.initial, .dual, .copying, .copied] := by
  -- no command leads back from a phase after the switch
  have hback : ∀ (script : List Command) (φ : Phase), φ ∈ [Phase.switched, .single, .cleaned] →
      ¬ Admits new φ script .copied := by
    intro script
    induction script with
    | nil =>
        intro φ hφ hadmits
        have hend : φ = .copied := Option.some.inj hadmits
        rw [hend] at hφ
        exact absurd hφ (by decide)
    | cons cmd rest ih =>
        intro φ hφ hadmits
        obtain ⟨φ₁, hadv, hrest⟩ := admits_cons.mp hadmits
        refine ih φ₁ ?_ hrest
        rcases Phase.advance_cases hadv with ⟨rfl, -, -⟩ | ⟨rfl, -, -⟩ | ⟨rfl, -, -⟩ |
          ⟨rfl, -, -⟩ | ⟨-, -, rfl⟩ | ⟨-, -, rfl⟩
        · exact absurd hφ (by decide)
        · exact absurd hφ (by decide)
        · exact absurd hφ (by decide)
        · exact absurd hφ (by decide)
        · decide
        · decide
  cases φ with
  | initial => decide
  | dual => decide
  | copying => decide
  | copied => decide
  | switched => exact absurd h (hback script _ (by decide))
  | single => exact absurd h (hback script _ (by decide))
  | cleaned => exact absurd h (hback script _ (by decide))

/-- Before the switch rows lie on their old and on their new shards only. -/
theorem MirrorInv.placed (h : MirrorInv N old new φ s) {i : Nat} {m : Message}
    (hm : s.cluster.Stores i m) : i = route m.chatId old ∨ i = route m.chatId new := by
  have hearly := Phase.early_of_admits h.admits
  have hplaced := h.phase.placed i m hm
  cases φ with
  | initial => exact Or.inl hplaced
  | dual => exact hplaced
  | copying => exact hplaced
  | copied => exact hplaced
  | switched => exact absurd hearly (by decide)
  | single => exact absurd hearly (by decide)
  | cleaned => exact absurd hearly (by decide)

/-- **The step lemma**: an action in step keeps the mirror. -/
theorem MirrorInv.step (h : MirrorInv N old new φ s) (hold : 1 ≤ old) (hnew : 1 ≤ new)
    (hoN : old ≤ N) (hnN : new ≤ N) {a : Action} (hsync : Synchronised old a s)
    (hstep : System.step true a s = some s') : ∃ φ', MirrorInv N old new φ' s' := by
  obtain ⟨φ', hadmits, hphase⟩ := h.phase.step hold hnew hoN hnN h.admits hstep
  refine ⟨φ', ?_⟩
  have hn := h.phase.runs.nShards
  cases a with
  | send fromId toId text messageId =>
      have hs' := (System.beginSend_cases hstep (h.phase.runs.valid hold hnew hoN hnN)).2
      subst hs'
      exact ⟨hphase, hadmits, h.mirrors, h.scan⟩
  | insert call now =>
      obtain ⟨m, idx, rest, hcall, hs'⟩ := System.runInsert_cases hstep
      have hin : CallInStep old s.cluster now s.inflight[call]? := hsync
      rw [hcall] at hin
      subst hs'
      exact ⟨hphase, hadmits, h.mirrors.insertMessage h.phase.copiesAgree hin,
        fun b hb => (h.scan b hb).insertMessage idx ⟨m, now⟩⟩
  | sendReturns call =>
      obtain ⟨m, -, hs'⟩ := System.endSend_cases hstep
      subst hs'
      exact ⟨hphase, hadmits, h.mirrors, h.scan⟩
  | command =>
      obtain ⟨cmd, rest, hidle, hscript, -, hs'⟩ := System.nextCommand_cases hstep
      have hclean : ∀ n, cmd ≠ .cleanup n := by
        rintro n rfl
        have hhead := h.admits
        rw [hscript] at hhead
        obtain ⟨φ₁, hadv, -⟩ := admits_cons.mp hhead
        have hsingle : φ.settled = .single := by
          rcases Phase.advance_cases hadv with ⟨-, hcmd, -⟩ | ⟨-, hcmd, -⟩ | ⟨-, hcmd, -⟩ |
            ⟨-, hcmd, -⟩ | ⟨-, hcmd, -⟩ | ⟨hφ, -, -⟩
          · cases hcmd
          · cases hcmd
          · cases hcmd
          · cases hcmd
          · cases hcmd
          · exact hφ
        have hearly := Phase.early_of_admits h.admits
        cases φ with
        | single => exact absurd hearly (by decide)
        | _ => exact absurd hsingle (by decide)
      obtain ⟨hshard, hbackfill⟩ :=
        System.runCommand_shards (s := { s with script := rest }) hidle hclean
      rw [← hs'] at hshard hbackfill
      refine ⟨hphase, hadmits, h.mirrors.congr hshard, ?_⟩
      intro b hb
      obtain ⟨n, oldN, rfl⟩ := hbackfill b hb
      exact Backfill.inOrder_start n oldN s'.cluster
  | backfill =>
      obtain ⟨b, hrun, -⟩ := System.awaitBackfill_cases hstep
      have hscans := h.phase.scan b hrun
      have horder := h.scan b hrun
      have hoN' : b.oldN ≤ s.cluster.nShards := by rw [hscans.oldN_eq]; omega
      have hnN' : new ≤ s.cluster.nShards := by omega
      obtain ⟨ob, c, hok, -, -⟩ := hscans.step hnew hnN' (by omega) h.phase.copiesAgree
      have hs' := System.awaitBackfill_of_ok hstep hrun hok
      have hmirrors : Mirrors old new c := by
        rcases backfillStep_inv hscans.newN_eq hnew hnN' hoN' hok with ⟨row, rest, hpage, -, rfl⟩ |
          ⟨-, -, -, -, rfl⟩ | ⟨-, -, last, -, -, rfl⟩ | ⟨-, -, -, rfl⟩
        · exact h.mirrors.copied h.phase.copiesAgree horder hscans (fun _ _ hm => h.placed hm) hpage
        · exact h.mirrors
        · exact h.mirrors
        · exact h.mirrors
      subst hs'
      refine ⟨hphase, hadmits, hmirrors, ?_⟩
      intro b' hb'
      have hb : ob = some b' := hb'
      subst hb
      exact horder.step hscans hnew hnN' (by omega) hok

/-! ## The switch -/

/-- Once the copies are complete, a chat has the same messages on its old and its new shard. -/
theorem MirrorInv.mem_chat_iff (h : MirrorInv N old new .copied s) (hold : 1 ≤ old)
    (hquiet : s.inflight = []) {chatId : ChatId} {v : StoredMessage}
    (hv : v.message.chatId = chatId) :
    (s.cluster.shard (route chatId old)).Has v ↔ (s.cluster.shard (route chatId new)).Has v := by
  subst hv
  constructor
  · rintro ⟨r, hr, rfl⟩
    obtain ⟨copy, hcopy, hmessage⟩ := h.phase.copied_stores hold hquiet ⟨r, hr, rfl⟩
    obtain ⟨origin, horigin, hval, -⟩ := h.mirrors _ copy hcopy (by rw [hmessage])
    rw [hmessage] at horigin
    have hid : origin.val.messageId = r.val.messageId := by
      rw [hval]
      unfold StoredMessage.messageId
      rw [hmessage]
    have hsame := (s.cluster.shard _).row_eq_of_key_eq horigin hr hid
    exact ⟨copy, hcopy, by rw [← hval, hsame]⟩
  · rintro ⟨r, hr, rfl⟩
    obtain ⟨origin, horigin, hval, -⟩ := h.mirrors _ r hr rfl
    exact ⟨origin, horigin, hval⟩

/-- All copies of a message carry the same columns. -/
theorem MirrorInv.copies_eq (h : MirrorInv N old new φ s) {i j : Nat} {r r' : Row}
    (hr : r ∈ (s.cluster.shard i).rows) (hr' : r' ∈ (s.cluster.shard j).rows)
    (hid : r.val.messageId = r'.val.messageId) : r.val = r'.val := by
  have hmessage : r.val.message = r'.val.message :=
    h.phase.copiesAgree ⟨r, hr, rfl⟩ ⟨r', hr', rfl⟩ hid
  -- both are copies of one row on the old shard
  have horigin : ∀ {k : Nat} {q : Row}, q ∈ (s.cluster.shard k).rows →
      ∃ origin ∈ (s.cluster.shard (route q.val.message.chatId old)).rows, origin.val = q.val := by
    intro k q hq
    rcases h.placed ⟨q, hq, rfl⟩ with hk | hk
    · exact ⟨q, hk ▸ hq, rfl⟩
    · obtain ⟨origin, ho, hval, -⟩ := h.mirrors k q hq hk.symm
      exact ⟨origin, ho, hval⟩
  obtain ⟨origin, ho, hval⟩ := horigin hr
  obtain ⟨origin', ho', hval'⟩ := horigin hr'
  rw [hmessage] at ho
  have hsame := (s.cluster.shard _).row_eq_of_key_eq ho ho' (by rw [hval, hval']; exact hid)
  rw [← hval, ← hval', hsame]

/-- The two shards of a chat sort its messages alike. -/
theorem MirrorInv.sorted_eq (h : MirrorInv N old new .copied s) (hold : 1 ≤ old)
    (hquiet : s.inflight = []) (chatId : ChatId) :
    (((s.cluster.shard (route chatId old)).rows.filter
        fun r => r.val.message.chatId = chatId).insertionSort newestFirst).map SerialRow.val
      = (((s.cluster.shard (route chatId new)).rows.filter
        fun r => r.val.message.chatId = chatId).insertionSort newestFirst).map SerialRow.val := by
  have hnodup : ∀ i, (((s.cluster.shard i).rows.filter
      fun r => r.val.message.chatId = chatId).map SerialRow.val).Nodup := by
    intro i
    refine List.Nodup.of_map StoredMessage.messageId ?_
    rw [List.map_map]
    exact (s.cluster.shard i).unique.sublist (List.filter_sublist.map _)
  have hmem : ∀ i v, v ∈ ((s.cluster.shard i).rows.filter
      fun r => r.val.message.chatId = chatId).map SerialRow.val ↔
        (s.cluster.shard i).Has v ∧ v.message.chatId = chatId := by
    intro i v
    simp only [List.mem_map, List.mem_filter, decide_eq_true_eq]
    constructor
    · rintro ⟨r, ⟨hr, hchat⟩, rfl⟩
      exact ⟨⟨r, hr, rfl⟩, hchat⟩
    · rintro ⟨⟨r, hr, rfl⟩, hchat⟩
      exact ⟨r, ⟨hr, hchat⟩, rfl⟩
  refine TieBreak.map_insertionSort_newest_of_perm
    ((s.cluster.shard _).ascending.sublist List.filter_sublist) (hnodup _) ?_ ?_
  · rw [List.perm_ext_iff_of_nodup (hnodup _) (hnodup _)]
    intro v
    rw [hmem, hmem]
    exact and_congr_left fun hv => h.mem_chat_iff hold hquiet hv
  · intro x hx y hy x' hx' y' hy' hvx hvy htime hlt
    simp only [List.mem_filter, decide_eq_true_eq] at hx hy hx' hy'
    -- `y'` is mirrored, so the copy of `x` comes before it
    obtain ⟨origin, horigin, hval, hbefore⟩ := h.mirrors _ y' hy'.1 (by rw [hy'.2])
    rw [hy'.2] at horigin hbefore
    have hsame : origin = y :=
      (s.cluster.shard _).row_eq_of_key_eq horigin hy.1 (by rw [hval, hvy])
    rw [hsame] at hbefore
    obtain ⟨copy, hcopy, hcopyval, hcopyid⟩ :=
      hbefore x hx.1 hx.2 (by rw [htime, hvy]) hlt
    have hcopyeq : copy = x' :=
      (s.cluster.shard _).row_eq_of_key_eq hcopy hx'.1 (by rw [hcopyval, hvx])
    rwa [← hcopyeq]

/-- A page shows the columns of the sorted rows. -/
theorem map_toDTO_selectMessages (t : Shard) (chatId : ChatId) (limit offset : Nat) :
    (selectMessages t chatId limit offset).map (fun r => r.val.toDTO)
      = (((((t.rows.filter fun r => r.val.message.chatId = chatId).insertionSort newestFirst).map
        SerialRow.val).map StoredMessage.toDTO).drop offset).take limit := by
  rw [selectMessages, List.map_take, List.map_drop, List.map_map]
  rfl

/-- Every page of every chat is the same on the new shards. -/
theorem MirrorInv.list_eq (h : MirrorInv N old new .copied s) (hold : 1 ≤ old) (hnew : 1 ≤ new)
    (hoN : old ≤ N) (hnN : new ≤ N) (hquiet : s.inflight = []) (a b : Uuid) (limit offset : Nat) :
    ∃ page, list s.cluster a b limit offset = .ok page ∧
      list (s.cluster.assign (some (new : Int)) none none) a b limit offset = .ok page := by
  have hbefore : s.cluster.readPoolForChat (computeChatId a b)
      = .ok (route (computeChatId a b) old) :=
    h.phase.runs.readPoolForChat hold hnew hoN hnN (computeChatId a b)
  have hafter : (s.cluster.assign (some (new : Int)) none none).readPoolForChat (computeChatId a b)
      = .ok (route (computeChatId a b) new) :=
    readPoolForChat_eq rfl hnew (by rw [← h.phase.runs.nShards] at hnN; exact hnN) _
  have hassign : (s.cluster.assign (some (new : Int)) none none).shard
      (route (computeChatId a b) new) = s.cluster.shard (route (computeChatId a b) new) := rfl
  refine ⟨_, Dialogs.list_eq hbefore limit offset, ?_⟩
  rw [Dialogs.list_eq hafter, hassign, map_toDTO_selectMessages, map_toDTO_selectMessages,
    h.sorted_eq hold hquiet (computeChatId a b)]

end Runs

/-- A cluster at rest mirrors itself: no row is on a shard that is not its old one. -/
theorem Settled.mirrorInv {N old : Nat} {c : DialogsCluster} (hc : Settled N old c) (new : Nat) :
    MirrorInv N old new .initial (System.start c (untilVerified new)) where
  phase := hc.phaseInv new (untilVerified new)
  admits := by
    unfold Admits untilVerified
    simp [System.start, Phase.settled, Phase.advance]
  mirrors := fun d r hr _ => mirrored_self hr (hc.placed d _ ⟨r, hr, rfl⟩).symm
  scan := fun b hb => absurd hb (by simp [System.start])

/-- **The switch of reads is invisible** after a run whose INSERTs are all in step. -/
theorem switch_invisible {N old new : Nat} (hold : 1 ≤ old) (hlt : old < new) (hnN : new ≤ N)
    {c : DialogsCluster} (hc : Settled N old c) {acts : List Action}
    (hsync : Allowed (System.step true) (Synchronised old) acts
      (System.start c (untilVerified new))) {s : System}
    (hrun : exec (System.step true) acts (System.start c (untilVerified new)) = some s)
    (hscript : s.script = []) (hidle : s.running = none) (hquiet : s.inflight = []) :
    s.raised = none ∧
      (∀ i j, ∀ r ∈ (s.cluster.shard i).rows, ∀ r' ∈ (s.cluster.shard j).rows,
        r.val.messageId = r'.val.messageId → r.val = r'.val) ∧
      ∃ c', cmdSwitchRead new s.cluster = .ok () c' ∧ ∀ a b limit offset, ∃ page,
        list s.cluster a b limit offset = .ok page ∧ list c' a b limit offset = .ok page := by
  have hnew : 1 ≤ new := hold.trans hlt.le
  have hoN : old ≤ N := hlt.le.trans hnN
  obtain ⟨φ, hinv⟩ : ∃ φ, MirrorInv N old new φ s := by
    refine hsync.invariant (I := fun s => ∃ φ, MirrorInv N old new φ s) ?_
      ⟨.initial, hc.mirrorInv new⟩ hrun
    rintro a t t' ⟨φ, hinv⟩ hnow hstep
    exact hinv.step hold hnew hoN hnN hnow hstep
  have hadmits := hinv.admits
  rw [hscript] at hadmits
  have hsettled : φ.settled = .copied := Option.some.inj hadmits
  obtain rfl : φ = .copied := by
    have hcopying := hinv.phase.running
    rw [hidle] at hcopying
    cases φ with
    | copying => exact absurd (hcopying.mpr rfl) (by simp)
    | copied => rfl
    | _ => exact absurd hsettled (by decide)
  have hruns : Runs N old new .switched (s.cluster.assign (some (new : Int)) none none) :=
    ⟨hinv.phase.runs.nShards, rfl, hinv.phase.runs.writeN, hinv.phase.runs.dualWrite⟩
  refine ⟨hinv.phase.raised, fun i j r hr r' hr' hid => hinv.copies_eq hr hr' hid, _,
    (reconfigure_ok_iff _ _ _ _ _).mpr ⟨rfl, hruns.valid hold hnew hoN hnN⟩, ?_⟩
  intro a b limit offset
  exact hinv.list_eq hold hnew hoN hnN hquiet a b limit offset

/-- A message from before, one whose second INSERT finds the copy that backfill has made, and one
that both shards stamp alike. -/
def clocksTogether : List Action :=
  [.send (.ofNat 1) (.ofNat 2) "a" (.ofNat 11), .insert 0 (nineOnDay 1 first_day), .sendReturns 0,
    .command, .send (.ofNat 2) (.ofNat 1) "b" (.ofNat 12), .insert 0 (nineOnDay 2 second_day),
    .send (.ofNat 1) (.ofNat 2) "c" (.ofNat 13), .insert 1 (nineOnDay 3 third_day), .command,
    .backfill, .backfill, .backfill, .backfill, .insert 0 (nineOnDay 4 fourth_day),
    .insert 1 (nineOnDay 3 third_day), .sendReturns 0, .sendReturns 0, .backfill, .backfill,
    .backfill, .command]

/-- The users see the same three messages before and after the switch. -/
theorem switch_invisible_clocksTogether :
    ∃ s, exec (System.step true) clocksTogether (System.start (fresh 3 2) (untilVerified 3))
        = some s ∧
      s.acked.map Message.body = ["a", "b", "c"] ∧
      s.raised = none ∧
      (∀ i j, ∀ r ∈ (s.cluster.shard i).rows, ∀ r' ∈ (s.cluster.shard j).rows,
        r.val.messageId = r'.val.messageId → r.val = r'.val) ∧
      ∃ c', cmdSwitchRead (3 : Nat) s.cluster = .ok () c' ∧ ∀ a b limit offset, ∃ page,
        list s.cluster a b limit offset = .ok page ∧ list c' a b limit offset = .ok page := by
  have hrun : ((exec (System.step true) clocksTogether
      (System.start (fresh 3 2) (untilVerified 3))).map fun s =>
        (s.script, s.running.isNone, s.inflight.isEmpty, s.acked.map Message.body))
      = some ([], true, true, ["a", "b", "c"]) := by
    decide +kernel
  obtain ⟨s, hs, heq⟩ := Option.map_eq_some_iff.mp hrun
  simp only [Prod.mk.injEq, Option.isNone_iff_eq_none, List.isEmpty_iff] at heq
  exact ⟨s, hs, heq.2.2.2, switch_invisible (by decide) (by decide) (by decide)
    (settled_fresh 3 2) (by decide +kernel) hs heq.1 heq.2.1 heq.2.2.1⟩

/-- A message that the two shards of its chat stamp with different days. -/
def clocksApart : List Action :=
  [.command, .send (.ofNat 1) (.ofNat 2) "a" (.ofNat 11), .insert 0 (nineOnDay 1 first_day),
    .insert 0 (nineOnDay 2 second_day), .sendReturns 0, .command, .backfill, .backfill, .backfill,
    .backfill, .backfill, .command]

/-- What users 1 and 2 see of their chat: on which day each of its messages was sent. -/
def daysSeen (c : DialogsCluster) : List Nat :=
  match list c (.ofNat 1) (.ofNat 2) 10 0 with
  | .ok page => page.map fun m => m.createdAt.day
  | .error _ => []

/-- What they see after `switch_read(3)`. -/
def daysSeenAfter (c : DialogsCluster) : List Nat :=
  match cmdSwitchRead (3 : Nat) c with
  | .ok _ c' => daysSeen c'
  | .error _ _ => []

/-- **The switch shows two clocks**: the message moves to another day. -/
theorem switch_shows_clocks :
    ¬ ∀ (N old new : Nat) (c : DialogsCluster) (acts : List Action) (s : System),
      1 ≤ old → old < new → new ≤ N → Settled N old c →
      exec (System.step true) acts (System.start c (untilVerified new)) = some s →
      s.script = [] → s.running = none → s.inflight = [] → s.raised = none →
      ∀ c', cmdSwitchRead new s.cluster = .ok () c' → ∀ a b limit offset,
        list s.cluster a b limit offset = list c' a b limit offset := by
  intro h
  have hrun : ((exec (System.step true) clocksApart
      (System.start (fresh 3 2) (untilVerified 3))).map fun s =>
        (s.script, s.running.isNone && s.inflight.isEmpty && s.raised.isNone,
          daysSeen s.cluster, daysSeenAfter s.cluster)) = some ([], true, [1], [2]) := by
    decide +kernel
  obtain ⟨s, hs, heq⟩ := Option.map_eq_some_iff.mp hrun
  simp only [Prod.mk.injEq, Bool.and_eq_true, Option.isNone_iff_eq_none, List.isEmpty_iff] at heq
  obtain ⟨hscript, ⟨⟨hidle, hquiet⟩, hraised⟩, hbefore, hafter⟩ := heq
  have hdiffer : daysSeenAfter s.cluster ≠ daysSeen s.cluster := by
    rw [hbefore, hafter]
    decide
  refine hdiffer ?_
  unfold daysSeenAfter
  cases hswitch : cmdSwitchRead (3 : Nat) s.cluster with
  | error e c' =>
      unfold daysSeenAfter at hafter
      rw [hswitch] at hafter
      cases hafter
  | ok _ c' =>
      have hsame := h 3 2 3 (fresh 3 2) clocksApart s (by decide) (by decide) (by decide)
        (settled_fresh 3 2) hs hscript hidle hquiet hraised c' hswitch (.ofNat 1) (.ofNat 2) 10 0
      unfold daysSeen
      rw [hsame]

end HighLoad.Dialogs
