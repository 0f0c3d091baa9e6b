/-
# HighLoad.Dialogs.LateSends — backfill with sends in flight

An operator enables dual-write and runs backfill, and does not wait for the `send` calls that started
before. A call evaluates its write pools once, so a call that started under the old layout writes to
the old shard only, whenever it gets there. Backfill copies that row as long as it has still to look
at the shard again (`backfill_closes_tail`); a row that comes later stays where it is
(`lateInsert_left_behind`).
-/
import HighLoad.Dialogs.Pipeline

namespace HighLoad.Dialogs

open DialogsCluster

/-- The two commands that are to close the tail. -/
def window (newN : Int) : List Command := [.enableDualWrite newN, .backfill newN]

/-- The next INSERT of a call is in time: the call writes the new shard as well, or backfill was not
started, or it has not left the shard of the INSERT yet. -/
def InTime (new : Nat) (s : System) : Option SendCall → Prop
  | some ⟨m, idx :: rest⟩ =>
      route m.chatId new ∈ idx :: rest ∨ s.script ≠ [] ∨ ∃ b ∈ s.running, b.srcIdx ≤ idx
  | some ⟨_, []⟩ => True
  | none => True

instance (new : Nat) (s : System) : DecidablePred (InTime new s)
  | some ⟨_, _ :: _⟩ => inferInstanceAs (Decidable (_ ∨ _ ∨ _))
  | some ⟨_, []⟩ => inferInstanceAs (Decidable True)
  | none => inferInstanceAs (Decidable True)

/-- An INSERT of the run is in time; no other step is asked for anything. -/
def Timely (new : Nat) (s : System) : Action → Prop
  | .insert call _ => InTime new s s.inflight[call]?
  | _ => True

/-- Every INSERT of the run is in time. -/
def TimelyRun (new : Nat) : List Action → System → Prop
  | [], _ => True
  | a :: as, s =>
      Timely new s a ∧
        match System.step false a s with
        | some s' => TimelyRun new as s'
        | none => True

instance (new : Nat) (s : System) : DecidablePred (Timely new s)
  | .insert call _ => inferInstanceAs (Decidable (InTime new s s.inflight[call]?))
  | .send _ _ _ _ => isTrue trivial
  | .sendReturns _ => isTrue trivial
  | .command => isTrue trivial
  | .backfill => isTrue trivial

instance decidableTimelyRun (new : Nat) : ∀ acts s, Decidable (TimelyRun new acts s)
  | [], _ => isTrue trivial
  | a :: as, s =>
      have : Decidable (match System.step false a s with
          | some s' => TimelyRun new as s'
          | none => True) :=
        match System.step false a s with
        | some s' => decidableTimelyRun new as s'
        | none => isTrue trivial
      inferInstanceAs (Decidable (_ ∧ _))

/-! ## The invariant -/

/-- What is left of the two commands in a phase. -/
def Phase.window (new : Nat) : Phase → List Command
  | .initial => HighLoad.Dialogs.window new
  | .dual => [.backfill new]
  | _ => []

/-- The call knows the old layout only. -/
def SendCall.Late (old : Nat) (c : DialogsCluster) (p : SendCall) : Prop :=
  p.pools = [route p.message.chatId old] ∨
    (p.pools = [] ∧ c.Stores (route p.message.chatId old) p.message)

/-- The call has the shards of the phase before it that it has not written. -/
def SendCall.Writes (old new : Nat) (φ : Phase) (c : DialogsCluster) (p : SendCall) : Prop :=
  ∃ done, φ.routes old new p.message.chatId = done ++ p.pools ∧ ∀ i ∈ done, c.Stores i p.message

/-- `last_id` is the id of a row of the shard that is copied. -/
def Backfill.OnRow (b : Backfill) (c : DialogsCluster) : Prop :=
  b.lastId = 0 ∨ ∃ r ∈ (c.shard b.srcIdx).rows, r.id = b.lastId

/-- **What holds while the tail is closed**, whatever calls are in flight. -/
structure TailInv (N old new : Nat) (φ : Phase) (s : System) : Prop where
  readsOld : φ.readN old new = old ∧ φ ∈ [Phase.initial, .dual, .copying, .copied]
  script : s.script = φ.window new
  runs : Runs N old new φ s.cluster
  raised : s.raised = none
  running : s.running.isSome ↔ φ = .copying
  stored_known : ∀ i m, s.cluster.Stores i m → m ∈ s.known
  nodup : (s.known.map Message.messageId).Nodup
  calls : ∀ p ∈ s.inflight, p.Writes old new φ s.cluster ∨ p.Late old s.cluster
  acked : ∀ m ∈ s.acked, s.cluster.Stores (route m.chatId old) m
  scan : ∀ b, s.running = some b →
    b.Scans new old (s.Pending new) s.cluster ∧ b.OnRow s.cluster
  tail : φ = .copied → TailCovered new old (s.Pending new) (fun _ _ => False) s.cluster

section Preservation

variable {N old new : Nat} {φ : Phase} {s s' : System}

theorem TailInv.agree (h : TailInv N old new φ s) :
    ∀ m ∈ s.known, ∀ m' ∈ s.known, m.messageId = m'.messageId → m = m' :=
  fun _ hm _ hm' hid => List.inj_on_of_nodup_map h.nodup hm hm' hid

theorem TailInv.copiesAgree (h : TailInv N old new φ s) : s.cluster.CopiesAgree :=
  fun _ _ m m' hm hm' hid => h.agree m (h.stored_known _ m hm) m' (h.stored_known _ m' hm') hid

theorem SendCall.Late.mono {c c' : DialogsCluster} {p : SendCall} (h : p.Late old c)
    (hkeep : ∀ i m, c.Stores i m → c'.Stores i m) : p.Late old c' :=
  h.imp_right fun hdone => ⟨hdone.1, hkeep _ _ hdone.2⟩

theorem SendCall.Writes.mono {c c' : DialogsCluster} {p : SendCall} (h : p.Writes old new φ c)
    (hkeep : ∀ i m, c.Stores i m → c'.Stores i m) : p.Writes old new φ c' := by
  obtain ⟨done, hroutes, hdone⟩ := h
  exact ⟨done, hroutes, fun i hi => hkeep i _ (hdone i hi)⟩

theorem Backfill.OnRow.mono {c c' : DialogsCluster} {b : Backfill} (h : b.OnRow c)
    (hkeep : ∀ ⦃i : Nat⦄ ⦃r : Row⦄, r ∈ (c.shard i).rows → r ∈ (c'.shard i).rows) : b.OnRow c' :=
  h.imp_right fun ⟨r, hr, hid⟩ => ⟨r, hkeep hr, hid⟩

/-- The next row of the shard comes behind the cursor: its id is above every id there. -/
theorem Backfill.OnRow.lt_nextId {c : DialogsCluster} {b : Backfill} (h : b.OnRow c) :
    b.lastId < (c.shard b.srcIdx).nextId := by
  rcases h with hzero | ⟨r, hr, hid⟩
  · rw [hzero]
    exact (c.shard b.srcIdx).nextId_pos
  · rw [← hid]
    exact ((c.shard b.srcIdx).bounds r hr).2

/-- A row that is inserted where the scan has still to come is copied later. -/
theorem TailCovered.insertAhead {n oldN idx : Nat} {exempt exempt' : Message → Prop} {b : Backfill}
    {c : DialogsCluster} {x : StoredMessage} (h : TailCovered n oldN exempt b.Ahead c)
    (hex : ∀ m, exempt m → exempt' m ∨ (c.insertMessage idx x).Stores (route m.chatId n) m)
    (hrow : b.OnRow c) (hle : b.srcIdx ≤ idx) :
    TailCovered n oldN exempt' b.Ahead (c.insertMessage idx x) := by
  refine h.insertRow hex (Or.inr (Or.inr ?_))
  rcases Nat.lt_or_eq_of_le hle with hlt | rfl
  · exact Or.inl hlt
  · exact Or.inr ⟨rfl, Or.inl hrow.lt_nextId⟩

/-! ### Sends -/

theorem TailInv.beginSend (h : TailInv N old new φ s) (hv : s.cluster.Valid)
    {fromId toId messageId : Uuid} {text : String}
    (hstep : s.beginSend fromId toId text messageId = some s') : TailInv N old new φ s' := by
  obtain ⟨hfresh, hs'⟩ := System.beginSend_cases hstep hv
  obtain ⟨m, hm⟩ : ∃ m, m = newMessage fromId toId text messageId := ⟨_, rfl⟩
  rw [← hm, h.runs.writeRoutes] at hs'
  have hids := (System.not_mem_usedIds hfresh).2
  have hmid : m.messageId = messageId := by rw [hm]; rfl
  have hknown : s'.known = s.known ++ [m] := by
    rw [hs']
    simp only [System.known, List.map_append, List.map_cons, List.map_nil, List.append_assoc]
  have hpending : ∀ x, s.Pending new x → s'.Pending new x := by
    intro x hx
    rw [hs']
    exact hx.append _
  have hnodup : (s'.known.map Message.messageId).Nodup := by
    rw [hknown, List.map_append, List.nodup_append]
    refine ⟨h.nodup, List.nodup_singleton _, ?_⟩
    intro id hid id' hid' heq
    obtain ⟨x, hx, rfl⟩ := List.mem_map.mp hid
    obtain rfl := List.mem_singleton.mp hid'
    exact hids x hx (heq.trans hmid)
  have hcalls : ∀ p ∈ s'.inflight, p.Writes old new φ s.cluster ∨ p.Late old s.cluster := by
    intro p hp
    rw [hs'] at hp
    rcases List.mem_append.mp hp with hp | hp
    · exact h.calls p hp
    · rw [List.mem_singleton.mp hp]
      exact Or.inl ⟨[], rfl, by simp⟩
  have hstored : ∀ i x, s.cluster.Stores i x → x ∈ s'.known := by
    intro i x hx
    rw [hknown]
    exact List.mem_append_left _ (h.stored_known i x hx)
  have hscan : ∀ b, s.running = some b →
      b.Scans new old (s'.Pending new) s.cluster ∧ b.OnRow s.cluster := fun b hb =>
    ⟨(h.scan b hb).1.mono hpending, (h.scan b hb).2⟩
  have htail : φ = .copied →
      TailCovered new old (s'.Pending new) (fun _ _ => False) s.cluster := fun hφ =>
    (h.tail hφ).mono hpending
  subst hs'
  exact ⟨h.readsOld, h.script, h.runs, h.raised, h.running, hstored, hnodup, hcalls, h.acked, hscan,
    htail⟩

theorem TailInv.runInsert (h : TailInv N old new φ s) (hold : 1 ≤ old) (hoN : old ≤ N)
    (hv : s.cluster.Valid) {call : Nat} {now : DateTime} (htimely : Timely new s (.insert call now))
    (hstep : s.runInsert call now = some s') : TailInv N old new φ s' := by
  obtain ⟨m, idx, rest, hcall, hs'⟩ := System.runInsert_cases hstep
  have hp : (⟨m, idx :: rest⟩ : SendCall) ∈ s.inflight := List.mem_of_getElem? hcall
  have hmk : m ∈ s.known := System.mem_known.mpr (Or.inr ⟨_, hp, rfl⟩)
  have htime : route m.chatId new ∈ idx :: rest ∨ s.script ≠ [] ∨
      ∃ b ∈ s.running, b.srcIdx ≤ idx := by
    have hin : InTime new s s.inflight[call]? := htimely
    rw [hcall] at hin
    exact hin
  have hidx : idx < s.cluster.nShards := by
    rcases h.calls _ hp with ⟨done, hroutes, -⟩ | hlate | ⟨hnil, -⟩
    · have hmem : idx ∈ s.cluster.writeRoutes m.chatId := by
        rw [h.runs.writeRoutes]
        show idx ∈ φ.routes old new m.chatId
        rw [hroutes]
        exact List.mem_append_right _ List.mem_cons_self
      exact hv.lt_of_mem_writeRoutes hmem
    · have heq : idx = route m.chatId old := (List.cons.inj hlate).1
      have hlt := route_lt m.chatId hold
      have hn := h.runs.nShards
      omega
    · cases hnil
  have hins : s.Inserted s' m idx rest := by
    rw [hs']
    exact System.inserted_of_runInsert hcall hidx fun m' hm' hid =>
      h.agree m' (h.stored_known _ _ hm') m hmk hid
  obtain ⟨c, hc⟩ : ∃ c, c = s.cluster.insertMessage idx ⟨m, now⟩ := ⟨_, rfl⟩
  rw [← hc] at hs'
  have hcluster : s'.cluster = c := by rw [hs']
  have howed : route m.chatId new ∈ idx :: rest →
      s'.Pending new m ∨ s'.cluster.Stores (route m.chatId new) m := hins.pending_or_stores
  obtain ⟨hself, hkeep, hinv, hknown, -, hpending⟩ := hins
  rw [hcluster] at hself hkeep hinv hpending howed
  have hrows : ∀ ⦃i : Nat⦄ ⦃r : Row⦄, r ∈ (s.cluster.shard i).rows → r ∈ (c.shard i).rows := by
    intro i r hr
    rw [hc]
    exact mem_rows_insertMessage.mpr (Or.inl hr)
  -- the new shard has the message, or is still owed it, or backfill has still to find the row
  have hx : φ ≠ .initial → (s'.Pending new m ∨ c.Stores (route m.chatId new) m) ∨
      s.script ≠ [] ∨ ∃ b ∈ s.running, b.srcIdx ≤ idx := by
    intro _
    exact htime.imp_left howed
  have hcalls : ∀ p ∈ s'.inflight, p.Writes old new φ c ∨ p.Late old c := by
    intro p hp'
    rw [hs'] at hp'
    rcases List.mem_or_eq_of_mem_set hp' with hp' | rfl
    · exact (h.calls p hp').imp (fun hw => hw.mono hkeep) fun hl => hl.mono hkeep
    · rcases h.calls _ hp with ⟨done, hroutes, hdone⟩ | hlate | ⟨hnil, -⟩
      · refine Or.inl ⟨done ++ [idx], ?_, ?_⟩
        · rw [List.append_assoc]
          exact hroutes
        · intro i hi
          rcases List.mem_append.mp hi with hi | hi
          · exact hkeep i m (hdone i hi)
          · rw [List.mem_singleton.mp hi]
            exact hself
      · obtain ⟨heq, hrest⟩ := List.cons.inj hlate
        exact Or.inr (Or.inr ⟨hrest, heq ▸ hself⟩)
      · cases hnil
  have hstored : ∀ i x, c.Stores i x → x ∈ s'.known := by
    intro i x hx
    rw [hknown]
    rcases hinv i x hx with hx | ⟨-, rfl⟩
    · exact h.stored_known i x hx
    · exact hmk
  have hnodup : (s'.known.map Message.messageId).Nodup := by
    rw [hknown]
    exact h.nodup
  have hruns : Runs N old new φ c := hc ▸ h.runs.insertMessage idx _
  have hscan : ∀ b, s.running = some b →
      b.Scans new old (s'.Pending new) c ∧ b.OnRow c := by
    intro b hb
    have hφ : φ = .copying := h.running.mp (by rw [hb]; rfl)
    refine ⟨?_, (h.scan b hb).2.mono hrows⟩
    have hscripts : s.script = [] := by
      rw [h.script, hφ]
      rfl
    rcases hx (by rw [hφ]; decide) with hnow | hne | ⟨b₁, hb₁, hle⟩
    · rw [hc] at hpending hnow ⊢
      exact (h.scan b hb).1.insertMessage (hpending new) hnow
    · exact absurd hscripts hne
    · obtain rfl : b = b₁ := Option.some.inj (hb.symm.trans hb₁)
      rw [hc] at hpending hrows ⊢
      exact
        { newN_eq := (h.scan b hb).1.newN_eq
          oldN_eq := (h.scan b hb).1.oldN_eq
          page_rows := fun r hr => hrows ((h.scan b hb).1.page_rows r hr)
          covered := (h.scan b hb).1.covered.insertAhead (hpending new) (h.scan b hb).2 hle }
  have htail : φ = .copied → TailCovered new old (s'.Pending new) (fun _ _ => False) c := by
    intro hφ
    have hscripts : s.script = [] := by
      rw [h.script, hφ]
      rfl
    rcases hx (by rw [hφ]; decide) with hnow | hne | ⟨b, hb, -⟩
    · rw [hc] at hpending hnow ⊢
      exact (h.tail hφ).insertMessage (hpending new) hnow
    · exact absurd hscripts hne
    · have hcopying := h.running.mp (by rw [hb]; rfl)
      rw [hφ] at hcopying
      exact absurd hcopying (by decide)
  have hacked : ∀ x ∈ s.acked, c.Stores (route x.chatId old) x := fun x hx =>
    hkeep _ x (h.acked x hx)
  subst hs'
  exact ⟨h.readsOld, h.script, hruns, h.raised, h.running, hstored, hnodup, hcalls, hacked, hscan,
    htail⟩

theorem TailInv.endSend (h : TailInv N old new φ s) {call : Nat} (hstep : s.endSend call = some s') :
    TailInv N old new φ s' := by
  obtain ⟨m, hcall, hs'⟩ := System.endSend_cases hstep
  have hp : (⟨m, []⟩ : SendCall) ∈ s.inflight := List.mem_of_getElem? hcall
  have hlen : call < s.inflight.length := (List.getElem?_eq_some_iff.mp hcall).1
  have hget : s.inflight[call] = ⟨m, []⟩ := (List.getElem?_eq_some_iff.mp hcall).2
  have hknown : s'.known.Perm s.known := by
    rw [hs']
    unfold System.known
    have hcons := (List.getElem_cons_eraseIdx_perm hlen).map SendCall.message
    rw [hget, List.map_cons] at hcons
    rw [List.append_assoc]
    exact hcons.append_left s.acked
  have hpending : ∀ x, s.Pending new x → s'.Pending new x := by
    intro x hx
    rw [hs']
    exact hx.eraseIdx hcall _
  have hacked : ∀ x ∈ s'.acked, s.cluster.Stores (route x.chatId old) x := by
    intro x hx
    rw [hs'] at hx
    rcases List.mem_append.mp hx with hx | hx
    · exact h.acked x hx
    · rw [List.mem_singleton.mp hx]
      rcases h.calls _ hp with ⟨done, hroutes, hdone⟩ | hlate | ⟨-, hst⟩
      · have hmem := Phase.read_mem_routes old new φ m.chatId
        rw [h.readsOld.1] at hmem
        have hroutes' : φ.routes old new m.chatId = done := hroutes.trans (List.append_nil done)
        exact hdone _ (hroutes' ▸ hmem)
      · cases hlate
      · exact hst
  have hcalls : ∀ p ∈ s'.inflight, p.Writes old new φ s.cluster ∨ p.Late old s.cluster := by
    intro p hp'
    rw [hs'] at hp'
    exact h.calls p (List.mem_of_mem_eraseIdx hp')
  have hstored : ∀ i x, s.cluster.Stores i x → x ∈ s'.known := fun i x hx =>
    hknown.mem_iff.mpr (h.stored_known i x hx)
  have hnodup : (s'.known.map Message.messageId).Nodup :=
    (hknown.map Message.messageId).nodup_iff.mpr h.nodup
  have hscan : ∀ b, s.running = some b →
      b.Scans new old (s'.Pending new) s.cluster ∧ b.OnRow s.cluster := fun b hb =>
    ⟨(h.scan b hb).1.mono hpending, (h.scan b hb).2⟩
  have htail : φ = .copied →
      TailCovered new old (s'.Pending new) (fun _ _ => False) s.cluster := fun hφ =>
    (h.tail hφ).mono hpending
  subst hs'
  exact ⟨h.readsOld, h.script, h.runs, h.raised, h.running, hstored, hnodup, hcalls, hacked, hscan,
    htail⟩

/-! ### The operator -/

/-- When dual-write is enabled, the calls in flight keep their one pool. -/
theorem SendCall.Writes.late {c : DialogsCluster} {p : SendCall}
    (h : p.Writes old new .initial c) : p.Late old c := by
  obtain ⟨done, hroutes, hdone⟩ := h
  have hroute : Phase.routes old new .initial p.message.chatId = [route p.message.chatId old] := by
    simp [Phase.routes, Phase.readN, Phase.writeN, Phase.dualWrite]
  rw [hroute] at hroutes
  cases done with
  | nil => exact Or.inl hroutes.symm
  | cons i done =>
      obtain ⟨hi, hrest⟩ := List.cons.inj hroutes
      have hnil := List.append_eq_nil_iff.mp hrest.symm
      refine Or.inr ⟨hnil.2, ?_⟩
      rw [hi]
      exact hdone i List.mem_cons_self

theorem TailInv.nextCommand (h : TailInv N old new φ s) (hold : 1 ≤ old) (hnew : 1 ≤ new)
    (hoN : old ≤ N) (hnN : new ≤ N) (hstep : s.nextCommand false = some s') :
    ∃ φ', TailInv N old new φ' s' := by
  obtain ⟨cmd, rest, hrun, hs, -, hs'⟩ := System.nextCommand_cases hstep
  have hn := h.runs.nShards
  have hscript := h.script
  rw [hs] at hscript
  cases φ with
  | initial =>
      obtain ⟨rfl, rfl⟩ := List.cons.inj hscript
      have hruns : Runs N old new .dual (s.cluster.assign none (some ↑new) (some true)) :=
        ⟨hn, h.runs.readN, rfl, rfl⟩
      have hok : Command.run (.enableDualWrite ↑new) s.cluster
          = .ok () (s.cluster.assign none (some ↑new) (some true)) :=
        (reconfigure_ok_iff _ _ _ _ _).mpr ⟨rfl, hruns.valid hold hnew hoN hnN⟩
      have hs₁ : s' = { s with
          cluster := s.cluster.assign none (some ↑new) (some true), script := [.backfill ↑new] } := by
        rw [hs']
        exact System.runCommand_of_ok (s := { s with script := [.backfill ↑new] }) rfl hok
      subst hs₁
      refine ⟨.dual, ⟨rfl, by decide⟩, rfl, hruns, h.raised, ?_, h.stored_known, h.nodup, ?_, h.acked,
        ?_, fun hφ => absurd hφ (by decide)⟩
      · rw [hrun]
        exact ⟨fun hs => absurd hs (by simp), fun hφ => absurd hφ (by decide)⟩
      · intro p hp
        rcases h.calls p hp with hw | hl
        · exact Or.inr hw.late
        · exact Or.inr hl
      · intro b hb
        rw [hrun] at hb
        cases hb
  | dual =>
      obtain ⟨rfl, rfl⟩ := List.cons.inj hscript
      have hs₁ : s' = { s with script := [], running := some (Backfill.start new old) } := by
        rw [hs']
        unfold System.runCommand System.startBackfill
        simp only [h.runs.dualWrite, h.runs.readN, Phase.dualWrite, Phase.readN, if_true,
          Int.toNat_natCast]
      subst hs₁
      refine ⟨.copying, ⟨rfl, by decide⟩, rfl, ⟨hn, h.runs.readN, h.runs.writeN, h.runs.dualWrite⟩,
        h.raised, by simp, h.stored_known, h.nodup, h.calls, h.acked, ?_,
        fun hφ => absurd hφ (by decide)⟩
      intro b hb
      cases hb
      exact ⟨Backfill.scans_start new old _ _, Or.inl rfl⟩
  | copying => cases hscript
  | copied => cases hscript
  | switched => exact absurd h.readsOld.2 (by decide)
  | single => exact absurd h.readsOld.2 (by decide)
  | cleaned => exact absurd h.readsOld.2 (by decide)

/-- An await leaves the cursor on a row. -/
theorem Backfill.OnRow.step {b b' : Backfill} {c c' : DialogsCluster} (h : b.OnRow c)
    (hb : b.newN = new) (hnew : 1 ≤ new) (hnN : new ≤ c.nShards) (hoN : b.oldN ≤ c.nShards)
    (hkeep : ∀ ⦃i : Nat⦄ ⦃r : Row⦄, r ∈ (c.shard i).rows → r ∈ (c'.shard i).rows)
    (hstep : backfillStep b c = .ok (some b') c') : b'.OnRow c' := by
  rcases backfillStep_inv hb hnew hnN hoN hstep with ⟨row, rest, -, hnext, -⟩ |
    ⟨-, -, -, hnext, -⟩ | ⟨-, -, last, hlast, hnext, rfl⟩ | ⟨-, -, hnext, -⟩
  · obtain rfl := Option.some.inj hnext
    exact h.mono hkeep
  · obtain rfl := Option.some.inj hnext
    exact Or.inl rfl
  · obtain rfl := Option.some.inj hnext
    exact Or.inr ⟨last, (SerialTable.mem_of_mem_page (List.mem_of_getLast? hlast)).1, rfl⟩
  · cases hnext

theorem TailInv.awaitBackfill (h : TailInv N old new φ s) (hnew : 1 ≤ new) (hoN : old ≤ N)
    (hnN : new ≤ N) (hstep : s.awaitBackfill = some s') : ∃ φ', TailInv N old new φ' s' := by
  obtain ⟨b, hrun, -⟩ := System.awaitBackfill_cases hstep
  obtain rfl : φ = .copying := h.running.mp (by rw [hrun]; rfl)
  have hn := h.runs.nShards
  obtain ⟨hscans, hrow⟩ := h.scan b hrun
  obtain ⟨ob, c, hok, hcopies, hnext⟩ := hscans.step hnew (by omega) (by omega) h.copiesAgree
  have hs' := System.awaitBackfill_of_ok hstep hrun hok
  have hkeep : ∀ i m, s.cluster.Stores i m → c.Stores i m := fun i m hm => hcopies.stores hm
  have hacked : ∀ m ∈ s.acked, c.Stores (route m.chatId old) m := fun m hm =>
    hkeep _ m (h.acked m hm)
  have hstored : ∀ i m, c.Stores i m → m ∈ s.known := by
    intro i m hm
    obtain ⟨j, hj⟩ := hcopies.exists_stores hm
    exact h.stored_known j m hj
  have hcalls : ∀ p ∈ s.inflight, p.Writes old new .copying c ∨ p.Late old c := fun p hp =>
    (h.calls p hp).imp (fun hw => hw.mono hkeep) fun hl => hl.mono hkeep
  have hruns := h.runs.copies hcopies
  subst hs'
  cases ob with
  | some b' =>
      refine ⟨.copying, ⟨rfl, by decide⟩, h.script, hruns, h.raised, by simp, hstored, h.nodup, hcalls,
        hacked, ?_, fun hφ => absurd hφ (by decide)⟩
      intro b₁ hb₁
      cases hb₁
      have hold' := hscans.oldN_eq
      exact ⟨hnext, hrow.step hscans.newN_eq hnew (by omega) (by omega) hcopies.keeps hok⟩
  | none =>
      exact ⟨.copied, ⟨rfl, by decide⟩, h.script,
        ⟨hruns.nShards, hruns.readN, hruns.writeN, hruns.dualWrite⟩, h.raised, by simp, hstored,
        h.nodup, hcalls, hacked, fun _ hb => absurd hb (by simp), fun _ => hnext⟩

theorem TailInv.step (h : TailInv N old new φ s) (hold : 1 ≤ old) (hnew : 1 ≤ new) (hoN : old ≤ N)
    (hnN : new ≤ N) {a : Action} (htimely : Timely new s a) (hstep : System.step false a s = some s') :
    ∃ φ', TailInv N old new φ' s' := by
  have hv := h.runs.valid hold hnew hoN hnN
  cases a with
  | send fromId toId text messageId => exact ⟨φ, h.beginSend hv hstep⟩
  | insert call now => exact ⟨φ, h.runInsert hold hoN hv htimely hstep⟩
  | sendReturns call => exact ⟨φ, h.endSend hstep⟩
  | command => exact h.nextCommand hold hnew hoN hnN hstep
  | backfill => exact h.awaitBackfill hnew hoN hnN hstep

/-- The run lemma. -/
theorem TailInv.run (h : TailInv N old new φ s) (hold : 1 ≤ old) (hnew : 1 ≤ new) (hoN : old ≤ N)
    (hnN : new ≤ N) {acts : List Action} (htimely : TimelyRun new acts s)
    (hrun : exec (System.step false) acts s = some s') : ∃ φ', TailInv N old new φ' s' := by
  induction acts generalizing φ s with
  | nil =>
      obtain rfl : s = s' := Option.some.inj hrun
      exact ⟨φ, h⟩
  | cons a acts ih =>
      obtain ⟨t, ht, hrest⟩ := exec_cons_eq_some.mp hrun
      obtain ⟨hnow, hlater⟩ := htimely
      rw [ht] at hlater
      obtain ⟨φ₁, h₁⟩ := h.step hold hnew hoN hnN hnow ht
      exact ih h₁ hlater hrest

/-- Once backfill has returned, a returned message is on its new shard: no call has it in flight. -/
theorem TailInv.stores_new (h : TailInv N old new φ s) (hold : 1 ≤ old) (hscript : s.script = [])
    (hrun : s.running = none) {m : Message} (hm : m ∈ s.acked) :
    s.cluster.Stores (route m.chatId new) m := by
  have hφ : φ = .copied := by
    have hwindow := h.script
    have hcopying := h.running
    have hearly := h.readsOld.2
    rw [hscript] at hwindow
    rw [hrun] at hcopying
    cases φ with
    | initial => cases hwindow
    | dual => cases hwindow
    | copying => exact absurd (hcopying.mpr rfl) (by simp)
    | copied => rfl
    | switched => exact absurd hearly (by decide)
    | single => exact absurd hearly (by decide)
    | cleaned => exact absurd hearly (by decide)
  obtain ⟨r, hr, hrm⟩ := h.acked m hm
  rcases h.tail hφ _ (route_lt m.chatId hold) r hr with ht | ⟨p, hp, hpm, -⟩ | hf
  · rwa [hrm] at ht
  · -- the message would be known twice
    have hdisjoint := h.nodup
    unfold System.known at hdisjoint
    rw [List.map_append, List.nodup_append] at hdisjoint
    have hin : p.message.messageId ∈ (s.inflight.map SendCall.message).map Message.messageId :=
      List.mem_map_of_mem (List.mem_map_of_mem hp)
    rw [hpm, hrm] at hin
    exact absurd rfl (hdisjoint.2.2 m.messageId (List.mem_map_of_mem hm) _ hin)
  · exact hf.elim

end Preservation

/-- A cluster at rest begins the window. -/
theorem Settled.tailInv {N old : Nat} {c : DialogsCluster} (hc : Settled N old c) (new : Nat) :
    TailInv N old new .initial (System.start c (window new)) where
  readsOld := ⟨rfl, by decide⟩
  script := rfl
  runs := (hc.phaseInv new (window new)).runs
  raised := rfl
  running := (hc.phaseInv new (window new)).running
  stored_known := (hc.phaseInv new (window new)).stored_known
  nodup := by
    have hknown : (System.start c (window new)).known.map Message.messageId
        = c.pools.flatMap fun t => t.rows.map fun r => r.val.messageId := by
      simp only [System.known, System.start, List.map_nil, List.append_nil, List.map_flatMap,
        List.map_map]
      rfl
    rw [hknown, List.nodup_flatMap]
    refine ⟨fun t _ => t.unique, ?_⟩
    rw [List.pairwise_iff_getElem]
    intro i j hi hj hlt id hid hid'
    obtain ⟨r, hr, rfl⟩ := List.mem_map.mp hid
    obtain ⟨r', hr', hsame⟩ := List.mem_map.mp hid'
    have hij := (hc.once i j r (by rw [shard_eq_getElem hi]; exact hr) r'
      (by rw [shard_eq_getElem hj]; exact hr') hsame.symm).1
    omega
  calls := fun p hp => absurd hp List.not_mem_nil
  acked := (hc.phaseInv new (window new)).acked
  scan := fun b hb => absurd hb (by simp [System.start])
  tail := fun hφ => absurd hφ (by decide)

/-- **Backfill closes the tail with sends in flight**, when every INSERT of a call that started under
the old layout is in time. -/
theorem backfill_closes_tail {N old new : Nat} (hold : 1 ≤ old) (hlt : old < new) (hnN : new ≤ N)
    {c : DialogsCluster} (hc : Settled N old c) {acts : List Action}
    (htimely : TimelyRun new acts (System.start c (window new))) {s : System}
    (hrun : exec (System.step false) acts (System.start c (window new)) = some s) :
    s.raised = none ∧ (s.script = [] → s.running = none → ∀ m ∈ s.acked,
      ∃ i, shardForChat m.chatId.bytes new = .ok i ∧ s.cluster.Stores i m) := by
  have hnew : 1 ≤ new := hold.trans hlt.le
  obtain ⟨φ, hinv⟩ := (hc.tailInv new).run hold hnew (hlt.le.trans hnN) hnN htimely hrun
  refine ⟨hinv.raised, ?_⟩
  intro hscript hdone m hm
  exact ⟨_, shardForChat_eq m.chatId hnew, hinv.stores_new hold hscript hdone hm⟩

/-- A call starts, the two commands run, and the call writes. -/
def lateInsert : List Action :=
  [.send (.ofNat 1) (.ofNat 2) "a" (.ofNat 11), .command, .command, .backfill, .backfill, .backfill,
    .insert 0 (nineOnDay 1 first_day), .sendReturns 0]

/-- A row that comes when backfill has left its shard stays there. -/
theorem lateInsert_left_behind :
    ¬ ∀ (N old new : Nat) (c : DialogsCluster) (acts : List Action) (s : System),
      1 ≤ old → old < new → new ≤ N → Settled N old c →
      exec (System.step false) acts (System.start c (window new)) = some s →
      s.script = [] → s.running = none → s.raised = none → ∀ m ∈ s.acked,
        ∃ i, shardForChat m.chatId.bytes new = .ok i ∧ s.cluster.Stores i m := by
  intro h
  have hrun : ((exec (System.step false) lateInsert (System.start (fresh 3 2) (window 3))).map fun s =>
      (s.script, s.running.isNone, s.raised, s.acked.map fun m =>
        (s.cluster.shard (route m.chatId 3)).rows.length)) = some ([], true, none, [0]) := by
    decide +kernel
  obtain ⟨s, hs, heq⟩ := Option.map_eq_some_iff.mp hrun
  simp only [Prod.mk.injEq, Option.isNone_iff_eq_none] at heq
  obtain ⟨hscript, hdone, hraised, hrows⟩ := heq
  obtain ⟨m, hacked, hempty⟩ := List.map_eq_singleton_iff.mp hrows
  have hm : m ∈ s.acked := by
    rw [hacked]
    exact List.mem_cons_self
  obtain ⟨i, hi, r, hr, -⟩ := h 3 2 3 (fresh 3 2) lateInsert s (by decide) (by decide) (by decide)
    (settled_fresh 3 2) hs hscript hdone hraised m hm
  have hroute := shardForChat_eq m.chatId (by decide : 1 ≤ 3)
  obtain rfl : route m.chatId 3 = i := Except.ok.inj (hroute.symm.trans hi)
  rw [List.length_eq_zero_iff.mp hempty] at hr
  cases hr

/-- The call writes when backfill has not left its shard yet. -/
def insertInTime : List Action :=
  [.send (.ofNat 1) (.ofNat 2) "a" (.ofNat 11), .command, .command, .backfill,
    .insert 0 (nineOnDay 1 first_day), .backfill, .backfill, .backfill, .sendReturns 0, .backfill]

theorem backfill_closes_tail_insertInTime :
    ∃ s, exec (System.step false) insertInTime (System.start (fresh 3 2) (window 3)) = some s ∧
      s.acked.map Message.body = ["a"] ∧ ∀ m ∈ s.acked,
        ∃ i, shardForChat m.chatId.bytes 3 = .ok i ∧ s.cluster.Stores i m := by
  have hrun : ((exec (System.step false) insertInTime
      (System.start (fresh 3 2) (window 3))).map fun s =>
        (s.script, s.running.isNone, s.acked.map Message.body)) = some ([], true, ["a"]) := by
    decide +kernel
  obtain ⟨s, hs, heq⟩ := Option.map_eq_some_iff.mp hrun
  simp only [Prod.mk.injEq, Option.isNone_iff_eq_none] at heq
  exact ⟨s, hs, heq.2.2, (backfill_closes_tail (by decide) (by decide) (by decide)
    (settled_fresh 3 2) (by decide +kernel) hs).2 heq.1 heq.2.1⟩

end HighLoad.Dialogs
