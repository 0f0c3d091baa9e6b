/-
# HighLoad.Dialogs.Rollback — going back after switch-read

Switch-read is documented as a stage one can return from: dual-write stays on and restoring `read_n`
is all a rollback takes. But the second shard of a dual write is the one `read_n` names, and
switch-read changes `read_n` itself: from then on both counts are the new one and the old shard is
written no more. What a rollback still shows is therefore what was sent before the switch, and
afterwards the chats that both layouts put on one shard (`rollback_lists_iff`).
-/
import HighLoad.Dialogs.Pipeline

namespace HighLoad.Dialogs

open DialogsCluster

/-- The procedure up to switch-read, with dual-write still on. -/
def untilSwitch (newN : Int) : List Command :=
  [.enableDualWrite newN, .backfill newN, .switchRead newN]

theorem admits_untilSwitch (new : Nat) :
    Admits new .initial (untilSwitch new) .switched := by
  unfold Admits untilSwitch
  simp [Phase.advance]

/-- What sends after switch-read do to the cluster: old copies stay, new ones go to the new shards
only. -/
structure SinceSwitch (new : Nat) (c c' : DialogsCluster) : Prop where
  keeps : ∀ i m, c.Stores i m → c'.Stores i m
  adds : ∀ i m, c'.Stores i m → c.Stores i m ∨ i = route m.chatId new

theorem SinceSwitch.refl (new : Nat) (c : DialogsCluster) : SinceSwitch new c c where
  keeps := fun _ _ h => h
  adds := fun _ _ h => Or.inl h

section

variable {N old new : Nat} {c : DialogsCluster} {s₀ s₁ s₂ : System}

/-- After switch-read, writes go to the new shard alone. -/
theorem routes_switched (old new : Nat) (chatId : ChatId) :
    Phase.routes old new .switched chatId = [route chatId new] := by
  simp [Phase.routes, Phase.readN, Phase.writeN]

/-- One step after switch-read. -/
theorem SinceSwitch.step {s s' : System} (h : SinceSwitch new c s.cluster)
    (hinv : PhaseInv N old new .switched s) (hscript : s.script = []) {a : Action}
    (hold : 1 ≤ old) (hnew : 1 ≤ new) (hoN : old ≤ N) (hnN : new ≤ N)
    (hstep : System.step true a s = some s') :
    PhaseInv N old new .switched s' ∧ s'.script = [] ∧ SinceSwitch new c s'.cluster := by
  have hv := hinv.runs.valid hold hnew hoN hnN
  cases a with
  | send fromId toId text messageId =>
      have hs' := (System.beginSend_cases hstep hv).2
      exact ⟨hinv.beginSend hv hstep, by rw [hs']; exact hscript, by rw [hs']; exact h⟩
  | insert call now =>
      obtain ⟨m, idx, rest, hcall, hs'⟩ := System.runInsert_cases hstep
      obtain ⟨done, hroutes, -⟩ := hinv.calls _ (List.mem_of_getElem? hcall)
      have hidx : idx = route m.chatId new := by
        have hmem : idx ∈ Phase.routes old new .switched m.chatId := by
          rw [hroutes]
          exact List.mem_append_right _ List.mem_cons_self
        rw [routes_switched] at hmem
        exact List.mem_singleton.mp hmem
      refine ⟨hinv.runInsert hv hstep, by rw [hs']; exact hscript, ?_⟩
      rw [hs']
      constructor
      · intro i x hx
        exact (h.keeps i x hx).insertMessage idx _
      · intro i x hx
        rcases stores_of_stores_insertMessage hx with hx | ⟨hi, hxm⟩
        · exact h.adds i x hx
        · rw [hi, hxm]
          exact Or.inr hidx
  | sendReturns call =>
      obtain ⟨m, -, hs'⟩ := System.endSend_cases hstep
      exact ⟨hinv.endSend hstep, by rw [hs']; exact hscript, by rw [hs']; exact h⟩
  | command =>
      obtain ⟨cmd, rest, -, hs, -⟩ := System.nextCommand_cases hstep
      rw [hscript] at hs
      exact absurd hs (by simp)
  | backfill =>
      obtain ⟨b, hrun, -⟩ := System.awaitBackfill_cases hstep
      exact absurd (hinv.running.mp (by rw [hrun]; rfl)) (by decide)

/-- **The run lemma** for the time after switch-read. -/
theorem SinceSwitch.run (hinv : PhaseInv N old new .switched s₁) (hscript : s₁.script = [])
    (hold : 1 ≤ old) (hnew : 1 ≤ new) (hoN : old ≤ N) (hnN : new ≤ N) {acts : List Action}
    (h : exec (System.step true) acts s₁ = some s₂) :
    PhaseInv N old new .switched s₂ ∧ SinceSwitch new s₁.cluster s₂.cluster := by
  have hend := exec_invariant (P := fun s =>
    PhaseInv N old new .switched s ∧ s.script = [] ∧ SinceSwitch new s₁.cluster s.cluster)
    (fun a _ t t' ht hstep => ht.2.2.step ht.1 ht.2.1 hold hnew hoN hnN hstep)
    ⟨hinv, hscript, SinceSwitch.refl new _⟩ h
  exact ⟨hend.1, hend.2.2⟩

/-- Switch-read sets `read_n` and leaves the shards alone. -/
theorem PhaseInv.switchRead (h : PhaseInv N old new .copied s₀) (hold : 1 ≤ old) (hnew : 1 ≤ new)
    (hoN : old ≤ N) (hnN : new ≤ N) (hlast : s₀.script = [.switchRead new])
    (hswitch : System.step true .command s₀ = some s₁) :
    s₁ = { s₀ with cluster := s₀.cluster.assign (some ↑new) none none, script := [] } ∧
      s₀.inflight = [] ∧ PhaseInv N old new .switched s₁ := by
  obtain ⟨cmd, rest, hidle, hs, hquiet, hs₁⟩ := System.nextCommand_cases hswitch
  obtain ⟨rfl, rfl⟩ : Command.switchRead new = cmd ∧ [] = rest := by
    rw [hlast] at hs
    simpa using hs
  have hruns : Runs N old new .switched (s₀.cluster.assign (some ↑new) none none) :=
    ⟨h.runs.nShards, rfl, h.runs.writeN, h.runs.dualWrite⟩
  have hok : (Command.switchRead new).run s₀.cluster
      = .ok () (s₀.cluster.assign (some ↑new) none none) :=
    (reconfigure_ok_iff _ _ _ _ _).mpr ⟨rfl, hruns.valid hold hnew hoN hnN⟩
  have hs₁' : s₁ = { s₀ with
      cluster := s₀.cluster.assign (some ↑new) none none, script := [] } := by
    rw [hs₁]
    exact System.runCommand_of_ok (s := { s₀ with script := [] }) rfl hok
  refine ⟨hs₁', hquiet rfl rfl, ?_⟩
  rw [hs₁']
  exact h.assign (hquiet rfl rfl) hidle hruns (by decide)
    (fun m hm => h.copied_stores hold (hquiet rfl rfl) (h.acked m hm))
    (fun _ _ hi => hi) (fun hφ => absurd hφ (by decide)) []

/-- When switch-read is all that is left of the script, backfill has returned. -/
theorem copied_of_admits {φ : Phase} (h : PhaseInv N old new φ s₀) (hrun : s₀.running = none)
    (hadmits : Admits new φ.settled [.switchRead new] .switched) : φ = .copied := by
  obtain ⟨φ₁, hadv, -⟩ := admits_cons.mp hadmits
  have hφ : φ ≠ .copying := by
    intro hφ
    have hsome := h.running.mpr hφ
    rw [hrun] at hsome
    exact absurd hsome (by simp)
  have hset : φ.settled = φ := by
    cases φ with
    | copying => exact absurd rfl hφ
    | _ => rfl
  rw [hset] at hadv
  rcases Phase.advance_cases hadv with ⟨-, hcmd, -⟩ | ⟨-, hcmd, -⟩ | ⟨-, hcmd, -⟩ |
    ⟨hcopied, -, -⟩ | ⟨-, hcmd, -⟩ | ⟨-, hcmd, -⟩
  · exact absurd hcmd (by simp)
  · exact absurd hcmd (by simp)
  · exact absurd hcmd (by simp)
  · exact hcopied
  · exact absurd hcmd (by simp)
  · exact absurd hcmd (by simp)

/-- **Which messages a rollback shows.** Run the procedure up to switch-read, let any sends run to
their return, and restore `read_n`: every returned message is listed if and only if every message
sent since the switch belongs to a chat that both shard counts route to one shard. (Calls still in
flight at the rollback have not returned and count neither way.) -/
theorem rollback_lists_iff (hold : 1 ≤ old) (hnew : 1 ≤ new) (hoN : old ≤ N) (hnN : new ≤ N)
    (hc : Settled N old c) {acts acts' : List Action}
    (hrun : exec (System.step true) acts (System.start c (untilSwitch new)) = some s₀)
    (hlast : s₀.script = [.switchRead new])
    (hswitch : System.step true .command s₀ = some s₁)
    (hsends : exec (System.step true) acts' s₁ = some s₂) :
    ∃ c₃, reconfigure (some old) none none s₂.cluster = .ok () c₃ ∧
      ((∀ m ∈ s₂.acked, c₃.Lists m) ↔
        ∀ m ∈ s₂.acked, m ∉ s₁.acked →
          shardForChat m.chatId.bytes old = shardForChat m.chatId.bytes new) := by
  obtain ⟨φ, hadmits, hinv₀⟩ := hc.run hold hnew hoN hnN (admits_untilSwitch new) hrun
  rw [hlast] at hadmits
  obtain ⟨-, -, hidle, -⟩ := System.nextCommand_cases hswitch
  obtain rfl := copied_of_admits hinv₀ hidle hadmits
  obtain ⟨hs₁, hquiet₀, hinv₁⟩ := hinv₀.switchRead hold hnew hoN hnN hlast hswitch
  obtain ⟨hinv₂, hsince⟩ := SinceSwitch.run hinv₁ (by rw [hs₁]) hold hnew hoN hnN hsends
  have hn := hinv₂.runs.nShards
  have hvalid : (s₂.cluster.assign (some ↑old) none none).Valid :=
    { readN := by
        show (1 : Int) ≤ old ∧ (old : Int) ≤ s₂.cluster.nShards
        omega
      writeN := (hinv₂.runs.valid hold hnew hoN hnN).writeN }
  refine ⟨_, (reconfigure_ok_iff _ _ _ _ _).mpr ⟨rfl, hvalid⟩, ?_⟩
  -- after the rollback a message is listed when it is stored on its old shard
  have hlists : ∀ m, (s₂.cluster.assign (some ↑old) none none).Lists m ↔
      s₂.cluster.Stores (route m.chatId old) m := by
    intro m
    have hread := hvalid.readPoolForChat m.chatId
    rw [show (s₂.cluster.assign (some ↑old) none none).readN.toNat = old from
      Int.toNat_natCast old] at hread
    exact lists_iff hread
  have hroutes : ∀ m : Message, shardForChat m.chatId.bytes old
      = shardForChat m.chatId.bytes new ↔ route m.chatId old = route m.chatId new := by
    intro m
    rw [shardForChat_eq _ hold, shardForChat_eq _ hnew, Except.ok.injEq]
  constructor
  · intro hall m hm hlate
    rw [hroutes]
    rcases hsince.adds _ m ((hlists m).mp (hall m hm)) with hst | hr
    · -- a message stored at the switch was returned by then
      rcases System.mem_known.mp (hinv₁.stored_known _ m hst) with hk | ⟨p, hp, -⟩
      · exact absurd hk hlate
      · rw [hs₁, hquiet₀] at hp
        exact absurd hp List.not_mem_nil
    · exact hr
  · intro hall m hm
    rw [hlists]
    by_cases hearly : m ∈ s₁.acked
    · refine hsince.keeps _ m ?_
      rw [hs₁] at hearly ⊢
      exact hinv₀.acked m hearly
    · rw [(hroutes m).mp (hall m hm hearly)]
      exact hinv₂.acked m hm

end

/-- From two to three empty shards, up to the last command but one. -/
def switchRun : List Action := [.command, .command, .backfill, .backfill, .backfill]

/-- A send after switch-read. -/
def lateSend : List Action :=
  [.send (.ofNat 1) (.ofNat 2) "late" (.ofNat 11), .insert 0 (nineOnDay 1 first_day), .sendReturns 0]

/-- What a rollback then lists. -/
def listAfterRollback (s : System) : Except PyError (List DialogMessageDTO) :=
  match reconfigure (some 2) none none s.cluster with
  | .ok _ c => list c (.ofNat 1) (.ofNat 2) 10 0
  | .error e _ => .error e

theorem lateSend_run :
    ((exec (System.step true) switchRun (System.start (fresh 3 2) (untilSwitch 3))).bind
      fun s₀ => (System.step true .command s₀).bind fun s₁ =>
        (exec (System.step true) lateSend s₁).map fun s₂ =>
          (s₀.script, s₂.inflight.isEmpty, s₂.acked.map Message.body, listAfterRollback s₂))
      = some ([.switchRead 3], true, ["late"], .ok []) := by
  decide +kernel

/-- **The rollback hides a message sent after switch-read.** -/
theorem rollback_hides_lateSend :
    ∃ s₀ s₁ s₂ c₃, exec (System.step true) switchRun
        (System.start (fresh 3 2) (untilSwitch 3)) = some s₀ ∧
      s₀.script = [.switchRead 3] ∧ System.step true .command s₀ = some s₁ ∧
      exec (System.step true) lateSend s₁ = some s₂ ∧ s₂.inflight = [] ∧
      s₂.acked.map Message.body = ["late"] ∧
      reconfigure (some 2) none none s₂.cluster = .ok () c₃ ∧
      list c₃ (.ofNat 1) (.ofNat 2) 10 0 = .ok [] := by
  obtain ⟨s₀, h₀, hrest⟩ := Option.bind_eq_some_iff.mp lateSend_run
  obtain ⟨s₁, h₁, hrest⟩ := Option.bind_eq_some_iff.mp hrest
  obtain ⟨s₂, h₂, heq⟩ := Option.map_eq_some_iff.mp hrest
  simp only [Prod.mk.injEq, List.isEmpty_iff] at heq
  obtain ⟨hscript, hquiet, hbody, hlist⟩ := heq
  unfold listAfterRollback at hlist
  split at hlist
  · rename_i c₃ hc₃
    exact ⟨s₀, s₁, s₂, c₃, h₀, hscript, h₁, h₂, hquiet, hbody, hc₃, hlist⟩
  · exact absurd hlist (by simp)

/-- A send after switch-read between the users 1 and 8, whose chat both layouts put on shard 1. -/
def stableSend : List Action :=
  [.send (.ofNat 1) (.ofNat 8) "stable" (.ofNat 11), .insert 0 (nineOnDay 1 first_day), .sendReturns 0]

/-- That message survives the rollback. -/
theorem rollback_lists_stableSend :
    ∃ (s₂ : System) (c₃ : DialogsCluster), s₂.acked.map Message.body = ["stable"] ∧
      reconfigure (some 2) none none s₂.cluster = .ok () c₃ ∧ ∀ m ∈ s₂.acked, c₃.Lists m := by
  have hrun : ((exec (System.step true) switchRun (System.start (fresh 3 2) (untilSwitch 3))).bind
      fun s₀ => (System.step true .command s₀).bind fun s₁ =>
        (exec (System.step true) stableSend s₁).map fun s₂ =>
          (s₀.script, s₂.acked.map Message.body,
            s₂.acked.all fun m => route m.chatId 2 = route m.chatId 3))
      = some ([.switchRead 3], ["stable"], true) := by
    decide +kernel
  obtain ⟨s₀, h₀, hrest⟩ := Option.bind_eq_some_iff.mp hrun
  obtain ⟨s₁, h₁, hrest⟩ := Option.bind_eq_some_iff.mp hrest
  obtain ⟨s₂, h₂, heq⟩ := Option.map_eq_some_iff.mp hrest
  simp only [Prod.mk.injEq, List.all_eq_true, decide_eq_true_eq] at heq
  obtain ⟨hscript, hbody, hsame⟩ := heq
  obtain ⟨c₃, hc₃, hiff⟩ := @rollback_lists_iff 3 2 3 _ _ _ _ (by decide) (by decide)
    (by decide) (by decide) (settled_fresh 3 2) _ _ h₀ hscript h₁ h₂
  refine ⟨s₂, c₃, hbody, hc₃, hiff.mpr ?_⟩
  intro m hm _
  have h2 := shardForChat_eq m.chatId (n := 2) (by decide)
  have h3 := shardForChat_eq m.chatId (n := 3) (by decide)
  rw [h2, h3, hsame m hm]

end HighLoad.Dialogs
