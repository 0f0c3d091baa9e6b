/-
# HighLoad.Dialogs.Phases — the invariant of a resharding in progress

A resharding from `old` to `new` shards goes through seven phases, and the script says which command
leads from one to the next (`Phase.advance`). `PhaseInv` says what holds in a phase, whatever `send`
calls are in flight: the flags, where rows may lie, that returned messages are on the shard that is
read, and, from the end of backfill on, that every old row is on its new shard unless a call in
flight has still to put it there.

`PhaseInv.step` carries the invariant over every step that the discipline of the test allows.
-/
import HighLoad.Dialogs.CommandSpecs

namespace HighLoad.Dialogs

open DialogsCluster

/-! ## Phases -/

/-- The phases of a resharding. -/
inductive Phase where
  | initial
  | dual
  | copying
  | copied
  | switched
  | single
  | cleaned
  deriving DecidableEq

namespace Phase

/-- `read_n` in a phase. -/
def readN (old new : Nat) : Phase → Nat
  | initial | dual | copying | copied => old
  | switched | single | cleaned => new

/-- `write_n` in a phase. -/
def writeN (old new : Nat) : Phase → Nat
  | initial => old
  | dual | copying | copied | switched | single | cleaned => new

/-- `dual_write` in a phase. -/
def dualWrite : Phase → Bool
  | initial | single | cleaned => false
  | dual | copying | copied | switched => true

/-- Where a row of a chat may lie in a phase. -/
def Places (old new : Nat) : Phase → Nat → ChatId → Prop
  | initial, i, chatId => i = route chatId old
  | cleaned, i, chatId => i = route chatId new ∨ (new ≤ i ∧ i = route chatId old)
  | _, i, chatId => i = route chatId old ∨ i = route chatId new

/-- The phase a running backfill ends in. -/
def settled : Phase → Phase
  | copying => copied
  | φ => φ

/-- The phase after a command, for the commands a phase admits. -/
def advance (new : Nat) : Phase → Command → Option Phase
  | initial, .enableDualWrite n => if n = new then some dual else none
  | dual, .backfill n => if n = new then some copied else none
  | copied, .verify n => if n = new then some copied else none
  | copied, .switchRead n => if n = new then some switched else none
  | switched, .disableDualWrite => some single
  | single, .cleanup n => if n = new then some cleaned else none
  | _, _ => none

/-- The six moves of a resharding. -/
theorem advance_cases {new : Nat} {φ φ₁ : Phase} {cmd : Command}
    (h : φ.advance new cmd = some φ₁) :
    (φ = initial ∧ cmd = .enableDualWrite new ∧ φ₁ = dual) ∨
    (φ = dual ∧ cmd = .backfill new ∧ φ₁ = copied) ∨
    (φ = copied ∧ cmd = .verify new ∧ φ₁ = copied) ∨
    (φ = copied ∧ cmd = .switchRead new ∧ φ₁ = switched) ∨
    (φ = switched ∧ cmd = .disableDualWrite ∧ φ₁ = single) ∨
    (φ = single ∧ cmd = .cleanup new ∧ φ₁ = cleaned) := by
  unfold advance at h
  split at h <;> first | split_ifs at h with hn | skip
  all_goals simp_all

/-- The shards a phase writes a chat to. -/
def routes (old new : Nat) (φ : Phase) (chatId : ChatId) : List Nat :=
  let r := route chatId (φ.readN old new)
  let w := route chatId (φ.writeN old new)
  if φ.dualWrite = true ∧ w ≠ r then [r, w] else [w]

/-- Every phase writes to the shard it reads. -/
theorem read_mem_routes (old new : Nat) (φ : Phase) (chatId : ChatId) :
    route chatId (φ.readN old new) ∈ φ.routes old new chatId := by
  unfold routes
  by_cases h : route chatId (φ.writeN old new) = route chatId (φ.readN old new)
  · simp [h]
  · cases φ with
    | initial => exact absurd rfl h
    | dual => simp [h, dualWrite]
    | copying => simp [h, dualWrite]
    | copied => simp [h, dualWrite]
    | switched => exact absurd rfl h
    | single => exact absurd rfl h
    | cleaned => exact absurd rfl h

/-- Every phase but the first writes to the new shard. -/
theorem new_mem_routes {old new : Nat} {φ : Phase} (hφ : φ ≠ .initial) (chatId : ChatId) :
    route chatId new ∈ φ.routes old new chatId := by
  have hw : φ.writeN old new = new := by
    cases φ with
    | initial => exact absurd rfl hφ
    | _ => rfl
  simp only [routes, hw]
  split_ifs <;> simp

/-- A phase writes only where it lets rows lie. -/
theorem places_of_mem_routes {old new : Nat} {φ : Phase} {i : Nat} {chatId : ChatId}
    (h : i ∈ φ.routes old new chatId) : φ.Places old new i chatId := by
  unfold routes at h
  cases φ with
  | initial => simpa [readN, writeN, dualWrite, Places] using h
  | cleaned =>
      refine Or.inl ?_
      simpa [readN, writeN, dualWrite] using h
  | switched =>
      refine Or.inr ?_
      simpa [readN, writeN, dualWrite] using h
  | single =>
      refine Or.inr ?_
      simpa [readN, writeN, dualWrite] using h
  | _ =>
      simp only [readN, writeN, dualWrite, true_and] at h
      split_ifs at h with hne
      · simpa [Places] using h
      · exact Or.inr (by simpa using h)

end Phase

/-- From the phase `φ` the script is admitted and leads to the phase `goal`. -/
def Admits (new : Nat) (φ : Phase) (script : List Command) (goal : Phase) : Prop :=
  script.foldlM (Phase.advance new) φ = some goal

theorem admits_cons {new : Nat} {φ goal : Phase} {cmd : Command} {rest : List Command} :
    Admits new φ (cmd :: rest) goal ↔
      ∃ φ₁, φ.advance new cmd = some φ₁ ∧ Admits new φ₁ rest goal := by
  unfold Admits
  rw [List.foldlM_cons]
  exact Option.bind_eq_some_iff

/-! ## The invariant -/

/-- A call in flight has still to write the message to the shard `n` routes it to. -/
def System.Pending (s : System) (n : Nat) (m : Message) : Prop :=
  ∃ p ∈ s.inflight, p.message = m ∧ route m.chatId n ∈ p.pools

namespace System.Pending

variable {s : System} {n : Nat} {x : Message}

/-- A call that starts takes no debt off another. -/
theorem append (h : s.Pending n x) (p : SendCall) :
    System.Pending { s with inflight := s.inflight ++ [p] } n x := by
  obtain ⟨p', hp', hx⟩ := h
  exact ⟨p', List.mem_append_left [p] hp', hx⟩

/-- An INSERT into a pool pays the debt of its call for that pool, and no other. -/
theorem set {call idx : Nat} {m : Message} {rest : List Nat}
    (hcall : s.inflight[call]? = some ⟨m, idx :: rest⟩) (h : s.Pending n x) (c : DialogsCluster) :
    System.Pending { s with cluster := c, inflight := s.inflight.set call ⟨m, rest⟩ } n x ∨
      (x = m ∧ idx = route m.chatId n) := by
  obtain ⟨p, hp, rfl, hpools⟩ := h
  have hlen : call < s.inflight.length := (List.getElem?_eq_some_iff.mp hcall).1
  rcases System.mem_set_or_eq (q := ⟨m, rest⟩) hcall hp with rfl | hin
  · rcases List.mem_cons.mp hpools with heq | hr
    · exact Or.inr ⟨rfl, heq.symm⟩
    · exact Or.inl ⟨⟨m, rest⟩, List.mem_set hlen _, rfl, hr⟩
  · exact Or.inl ⟨p, hin, rfl, hpools⟩

/-- A call that returns owes nothing. -/
theorem eraseIdx {call : Nat} {m : Message} (hcall : s.inflight[call]? = some ⟨m, []⟩)
    (h : s.Pending n x) (acked : List Message) :
    System.Pending { s with inflight := s.inflight.eraseIdx call, acked := acked } n x := by
  obtain ⟨p, hp, hx, hpools⟩ := h
  rcases System.mem_eraseIdx_or_eq hcall hp with rfl | hin
  · exact absurd hpools List.not_mem_nil
  · exact ⟨p, hin, hx, hpools⟩

end System.Pending

/-- The cluster runs with the flags of a phase. -/
structure Runs (N old new : Nat) (φ : Phase) (c : DialogsCluster) : Prop where
  nShards : c.nShards = N
  readN : c.readN = φ.readN old new
  writeN : c.writeN = φ.writeN old new
  dualWrite : c.dualWrite = φ.dualWrite

/-- **What holds in a phase.** -/
structure PhaseInv (N old new : Nat) (φ : Phase) (s : System) : Prop where
  runs : Runs N old new φ s.cluster
  raised : s.raised = none
  running : s.running.isSome ↔ φ = .copying
  stored_known : ∀ i m, s.cluster.Stores i m → m ∈ s.known
  agree : ∀ m ∈ s.known, ∀ m' ∈ s.known, m.messageId = m'.messageId → m = m'
  calls : ∀ p ∈ s.inflight, ∃ done, φ.routes old new p.message.chatId = done ++ p.pools ∧
    ∀ i ∈ done, s.cluster.Stores i p.message
  acked : ∀ m ∈ s.acked, s.cluster.Stores (route m.chatId (φ.readN old new)) m
  placed : ∀ i m, s.cluster.Stores i m → φ.Places old new i m.chatId
  scan : ∀ b, s.running = some b → b.Scans new old (s.Pending new) s.cluster
  tail : φ = .copied → TailCovered new old (s.Pending new) (fun _ _ => False) s.cluster

section Preservation

variable {N old new : Nat} {φ : Phase} {s s' : System}

theorem Runs.valid {c : DialogsCluster} (h : Runs N old new φ c) (hold : 1 ≤ old)
    (hnew : 1 ≤ new) (hoN : old ≤ N) (hnN : new ≤ N) : c.Valid := by
  have hr : 1 ≤ φ.readN old new ∧ φ.readN old new ≤ N := by
    cases φ <;> simp only [Phase.readN] <;> omega
  have hw : 1 ≤ φ.writeN old new ∧ φ.writeN old new ≤ N := by
    cases φ <;> simp only [Phase.writeN] <;> omega
  exact
    { readN := by rw [h.readN, h.nShards]; omega
      writeN := by rw [h.writeN, h.nShards]; omega }

theorem Runs.writeRoutes {c : DialogsCluster} (h : Runs N old new φ c) (chatId : ChatId) :
    c.writeRoutes chatId = φ.routes old new chatId := by
  unfold DialogsCluster.writeRoutes Phase.routes
  rw [h.readN, h.writeN, h.dualWrite]
  rfl

theorem Runs.readPoolForChat {c : DialogsCluster} (h : Runs N old new φ c) (hold : 1 ≤ old)
    (hnew : 1 ≤ new) (hoN : old ≤ N) (hnN : new ≤ N) (chatId : ChatId) :
    c.readPoolForChat chatId = .ok (route chatId (φ.readN old new)) := by
  rw [(h.valid hold hnew hoN hnN).readPoolForChat, h.readN, Int.toNat_natCast]

theorem Runs.insertMessage {c : DialogsCluster} (h : Runs N old new φ c) (idx : Nat)
    (m : StoredMessage) : Runs N old new φ (c.insertMessage idx m) where
  nShards := by rw [nShards_insertMessage, h.nShards]
  readN := h.readN
  writeN := h.writeN
  dualWrite := h.dualWrite

theorem Runs.copies {c c' : DialogsCluster} (h : Runs N old new φ c) {n : Nat}
    (hc : Copies n c c') : Runs N old new φ c' where
  nShards := hc.nShards.trans h.nShards
  readN := hc.readN.trans h.readN
  writeN := hc.writeN.trans h.writeN
  dualWrite := hc.dualWrite.trans h.dualWrite

theorem PhaseInv.copiesAgree (h : PhaseInv N old new φ s) : s.cluster.CopiesAgree :=
  fun _ _ m m' hm hm' hid => h.agree m (h.stored_known _ m hm) m' (h.stored_known _ m' hm') hid

/-! ### Sends -/

/-- An INSERT keeps the scan invariant when the new row is on its target, or its call has still to
put it there, or the scan is still to come to it. -/
theorem TailCovered.insertRow {n oldN idx : Nat} {exempt exempt' : Message → Prop}
    {ahead : Nat → Row → Prop} {c : DialogsCluster} {x : StoredMessage}
    (h : TailCovered n oldN exempt ahead c)
    (hex : ∀ m, exempt m →
      exempt' m ∨ (c.insertMessage idx x).Stores (route m.chatId n) m)
    (hx : exempt' x.message ∨
      (c.insertMessage idx x).Stores (route x.message.chatId n) x.message ∨
      ahead idx ⟨(c.shard idx).nextId, x⟩) :
    TailCovered n oldN exempt' ahead (c.insertMessage idx x) := by
  intro i hi r hr
  rcases mem_rows_insertMessage.mp hr with hr | ⟨rfl, -, -, rfl⟩
  · rcases h i hi r hr with ht | he | ha
    · exact Or.inl (ht.insertMessage idx x)
    · exact (hex _ he).elim (fun he' => Or.inr (Or.inl he')) Or.inl
    · exact Or.inr (Or.inr ha)
  · rcases hx with he | ht | ha
    · exact Or.inr (Or.inl he)
    · exact Or.inl ht
    · exact Or.inr (Or.inr ha)

/-- An INSERT of a call that writes the new shard keeps the scan invariant. -/
theorem TailCovered.insertMessage {n oldN idx : Nat} {exempt exempt' : Message → Prop}
    {ahead : Nat → Row → Prop} {c : DialogsCluster} {x : StoredMessage}
    (h : TailCovered n oldN exempt ahead c)
    (hex : ∀ m, exempt m →
      exempt' m ∨ (c.insertMessage idx x).Stores (route m.chatId n) m)
    (hx : exempt' x.message ∨
      (c.insertMessage idx x).Stores (route x.message.chatId n) x.message) :
    TailCovered n oldN exempt' ahead (c.insertMessage idx x) :=
  h.insertRow hex (hx.imp_right Or.inl)

theorem Backfill.Scans.insertMessage {n oldN idx : Nat} {exempt exempt' : Message → Prop}
    {b : Backfill} {c : DialogsCluster} {x : StoredMessage} (h : b.Scans n oldN exempt c)
    (hex : ∀ m, exempt m →
      exempt' m ∨ (c.insertMessage idx x).Stores (route m.chatId n) m)
    (hx : exempt' x.message ∨
      (c.insertMessage idx x).Stores (route x.message.chatId n) x.message) :
    b.Scans n oldN exempt' (c.insertMessage idx x) where
  newN_eq := h.newN_eq
  oldN_eq := h.oldN_eq
  page_rows := fun r hr => mem_rows_insertMessage.mpr (Or.inl (h.page_rows r hr))
  covered := h.covered.insertMessage hex hx

theorem TailCovered.mono {n oldN : Nat} {exempt exempt' : Message → Prop}
    {ahead : Nat → Row → Prop} {c : DialogsCluster} (h : TailCovered n oldN exempt ahead c)
    (hex : ∀ m, exempt m → exempt' m) : TailCovered n oldN exempt' ahead c := fun i hi r hr =>
  (h i hi r hr).imp_right (Or.imp_left (hex _))

theorem Backfill.Scans.mono {n oldN : Nat} {exempt exempt' : Message → Prop} {b : Backfill}
    {c : DialogsCluster} (h : b.Scans n oldN exempt c) (hex : ∀ m, exempt m → exempt' m) :
    b.Scans n oldN exempt' c where
  newN_eq := h.newN_eq
  oldN_eq := h.oldN_eq
  page_rows := h.page_rows
  covered := h.covered.mono hex

/-- **What an INSERT of a call does**: its shard holds the message, nothing is lost, nothing else
comes, and the call owes the pools that are left. -/
structure System.Inserted (s s' : System) (m : Message) (idx : Nat) (rest : List Nat) : Prop where
  self : s'.cluster.Stores idx m
  keeps : ∀ i x, s.cluster.Stores i x → s'.cluster.Stores i x
  adds : ∀ i x, s'.cluster.Stores i x → s.cluster.Stores i x ∨ (i = idx ∧ x = m)
  known : s'.known = s.known
  owes : ∀ i ∈ idx :: rest, s'.cluster.Stores i m ∨ (⟨m, rest⟩ ∈ s'.inflight ∧ i ∈ rest)
  pending : ∀ n x, s.Pending n x → s'.Pending n x ∨ s'.cluster.Stores (route x.chatId n) x

theorem System.inserted_of_runInsert {call idx : Nat} {m : Message} {rest : List Nat}
    {now : DateTime} (hcall : s.inflight[call]? = some ⟨m, idx :: rest⟩)
    (hidx : idx < s.cluster.nShards)
    (hagree : ∀ x, s.cluster.Stores idx x → x.messageId = m.messageId → x = m) :
    s.Inserted { s with
      cluster := s.cluster.insertMessage idx ⟨m, now⟩
      inflight := s.inflight.set call ⟨m, rest⟩ } m idx rest := by
  have hself : (s.cluster.insertMessage idx ⟨m, now⟩).Stores idx m :=
    stores_insertMessage_self hidx hagree
  refine
    { self := hself
      keeps := fun i x hx => hx.insertMessage idx _
      adds := fun i x hx => stores_of_stores_insertMessage hx
      known := ?_
      owes := fun i hi => ?_
      pending := fun n x hx => ?_ }
  · unfold System.known
    simp only [System.map_message_set hcall]
  · rcases List.mem_cons.mp hi with rfl | hi
    · exact Or.inl hself
    · exact Or.inr ⟨List.mem_set (List.getElem?_eq_some_iff.mp hcall).1 _, hi⟩
  · rcases hx.set hcall (s.cluster.insertMessage idx ⟨m, now⟩) with hx | ⟨rfl, hroute⟩
    · exact Or.inl hx
    · exact Or.inr (hroute ▸ hself)

/-- The new shard of a chat has the message, or its call still owes it. -/
theorem System.Inserted.pending_or_stores {m : Message} {idx n : Nat} {rest : List Nat}
    (h : s.Inserted s' m idx rest) (hi : route m.chatId n ∈ idx :: rest) :
    s'.Pending n m ∨ s'.cluster.Stores (route m.chatId n) m := by
  rcases h.owes _ hi with hst | ⟨hcall, hr⟩
  · exact Or.inr hst
  · exact Or.inl ⟨⟨m, rest⟩, hcall, rfl, hr⟩

/-- A call that starts has written nothing and has all the shards of the phase before it. -/
theorem PhaseInv.beginSend (h : PhaseInv N old new φ s) (hv : s.cluster.Valid)
    {fromId toId messageId : Uuid} {text : String}
    (hstep : s.beginSend fromId toId text messageId = some s') : PhaseInv N old new φ s' := by
  obtain ⟨hfresh, hs'⟩ := System.beginSend_cases hstep hv
  obtain ⟨m, hm⟩ : ∃ m, m = newMessage fromId toId text messageId := ⟨_, rfl⟩
  rw [← hm, h.runs.writeRoutes] at hs'
  have hids := (System.not_mem_usedIds hfresh).2
  have hmid : m.messageId = messageId := by rw [hm]; rfl
  have hknown : ∀ x, x ∈ s'.known ↔ x ∈ s.known ∨ x = m := by
    intro x
    rw [hs']
    simp only [System.known, List.map_append, List.map_cons, List.map_nil, List.mem_append,
      List.mem_singleton, or_assoc]
  have hpending : ∀ x, s.Pending new x → s'.Pending new x := by
    intro x hx
    rw [hs']
    exact hx.append _
  have hagree : ∀ x ∈ s'.known, ∀ y ∈ s'.known, x.messageId = y.messageId → x = y := by
    intro x hx y hy hid
    rcases (hknown x).mp hx with hxk | hxm
    · rcases (hknown y).mp hy with hyk | hym
      · exact h.agree x hxk y hyk hid
      · rw [hym, hmid] at hid
        exact absurd hid (hids x hxk)
    · rcases (hknown y).mp hy with hyk | hym
      · rw [hxm, hmid] at hid
        exact absurd hid.symm (hids y hyk)
      · rw [hxm, hym]
  have hcalls : ∀ p ∈ s'.inflight, ∃ done, φ.routes old new p.message.chatId = done ++ p.pools ∧
      ∀ i ∈ done, s.cluster.Stores i p.message := by
    intro p hp
    rw [hs'] at hp
    rcases List.mem_append.mp hp with hp | hp
    · exact h.calls p hp
    · rw [List.mem_singleton.mp hp]
      exact ⟨[], rfl, by simp⟩
  have hstored : ∀ i x, s.cluster.Stores i x → x ∈ s'.known := fun i x hx =>
    (hknown x).mpr (Or.inl (h.stored_known i x hx))
  have hscan : ∀ b, s.running = some b → b.Scans new old (s'.Pending new) s.cluster := fun b hb =>
    (h.scan b hb).mono hpending
  have htail : φ = .copied →
      TailCovered new old (s'.Pending new) (fun _ _ => False) s.cluster := fun hφ =>
    (h.tail hφ).mono hpending
  subst hs'
  exact ⟨h.runs, h.raised, h.running, hstored, hagree, hcalls, h.acked, h.placed, hscan, htail⟩

/-- An INSERT of a call puts the message on one more of its shards. -/
theorem PhaseInv.runInsert (h : PhaseInv N old new φ s) (hv : s.cluster.Valid) {call : Nat}
    {now : DateTime} (hstep : s.runInsert call now = some s') : PhaseInv N old new φ s' := by
  obtain ⟨m, idx, rest, hcall, hs'⟩ := System.runInsert_cases hstep
  have hp : (⟨m, idx :: rest⟩ : SendCall) ∈ s.inflight := List.mem_of_getElem? hcall
  obtain ⟨done, hroutes, hdone⟩ := h.calls _ hp
  simp only at hroutes hdone
  have hidx : idx < s.cluster.nShards := by
    have hmem : idx ∈ s.cluster.writeRoutes m.chatId := by
      rw [h.runs.writeRoutes, hroutes]
      exact List.mem_append_right _ List.mem_cons_self
    exact hv.lt_of_mem_writeRoutes hmem
  have hmk : m ∈ s.known := System.mem_known.mpr (Or.inr ⟨_, hp, rfl⟩)
  have hins : s.Inserted s' m idx rest := by
    rw [hs']
    exact System.inserted_of_runInsert hcall hidx fun m' hm' hid =>
      h.agree m' (h.stored_known _ _ hm') m hmk hid
  obtain ⟨c, hc⟩ : ∃ c, c = s.cluster.insertMessage idx ⟨m, now⟩ := ⟨_, rfl⟩
  rw [← hc] at hs'
  have hcluster : s'.cluster = c := by rw [hs']
  have howed : route m.chatId new ∈ idx :: rest →
      s'.Pending new m ∨ s'.cluster.Stores (route m.chatId new) m := hins.pending_or_stores
  obtain ⟨hself, hkeep, hinv, hknown, -, hpending⟩ := hins
  rw [hcluster] at hself hkeep hinv hpending howed
  have hx : φ ≠ .initial → s'.Pending new m ∨ c.Stores (route m.chatId new) m := by
    intro hφ
    have hmem : route m.chatId new ∈ φ.routes old new m.chatId :=
      Phase.new_mem_routes hφ m.chatId
    rw [hroutes] at hmem
    rcases List.mem_append.mp hmem with hi | hi
    · exact Or.inr (hkeep _ m (hdone _ hi))
    · exact howed hi
  have hcalls : ∀ p ∈ s'.inflight, ∃ done, φ.routes old new p.message.chatId = done ++ p.pools ∧
      ∀ i ∈ done, c.Stores i p.message := by
    intro p hp'
    rw [hs'] at hp'
    rcases List.mem_or_eq_of_mem_set hp' with hp' | rfl
    · obtain ⟨d, hd, hst⟩ := h.calls p hp'
      exact ⟨d, hd, fun i hi => hkeep i _ (hst i hi)⟩
    · refine ⟨done ++ [idx], by rw [hroutes]; simp, ?_⟩
      intro i hi
      rcases List.mem_append.mp hi with hi | hi
      · exact hkeep i m (hdone i hi)
      · rw [List.mem_singleton.mp hi]
        exact hself
  have hplaced : ∀ i x, c.Stores i x → φ.Places old new i x.chatId := by
    intro i x hx
    rcases hinv i x hx with hx | ⟨rfl, rfl⟩
    · exact h.placed i x hx
    · refine Phase.places_of_mem_routes ?_
      rw [hroutes]
      exact List.mem_append_right _ List.mem_cons_self
  have hstored : ∀ i x, c.Stores i x → x ∈ s'.known := by
    intro i x hx
    rw [hknown]
    rcases hinv i x hx with hx | ⟨-, rfl⟩
    · exact h.stored_known i x hx
    · exact hmk
  have hacked : ∀ x ∈ s.acked, c.Stores (route x.chatId (φ.readN old new)) x := fun x hx =>
    hkeep _ x (h.acked x hx)
  have hruns : Runs N old new φ c := hc ▸ h.runs.insertMessage idx _
  have hscan : ∀ b, s.running = some b → b.Scans new old (s'.Pending new) c := by
    intro b hb
    have hφ : φ = .copying := h.running.mp (by rw [hb]; rfl)
    rw [hc] at hpending hx ⊢
    exact (h.scan b hb).insertMessage (hpending new) (hx (by rw [hφ]; decide))
  have htail : φ = .copied → TailCovered new old (s'.Pending new) (fun _ _ => False) c := by
    intro hφ
    rw [hc] at hpending hx ⊢
    exact (h.tail hφ).insertMessage (hpending new) (hx (by rw [hφ]; decide))
  have hagree := h.agree
  rw [← hknown] at hagree
  subst hs'
  exact ⟨hruns, h.raised, h.running, hstored, hagree, hcalls, hacked, hplaced, hscan, htail⟩

/-- A call that returns has put its message on every shard of the phase. -/
theorem PhaseInv.endSend (h : PhaseInv N old new φ s) {call : Nat}
    (hstep : s.endSend call = some s') : PhaseInv N old new φ s' := by
  obtain ⟨m, hcall, hs'⟩ := System.endSend_cases hstep
  have hp : (⟨m, []⟩ : SendCall) ∈ s.inflight := List.mem_of_getElem? hcall
  obtain ⟨done, hroutes, hdone⟩ := h.calls _ hp
  simp only [List.append_nil] at hroutes hdone
  have hknown : ∀ x, x ∈ s'.known ↔ x ∈ s.known := by
    intro x
    rw [System.mem_known, System.mem_known, hs']
    simp only [List.mem_append, List.mem_singleton]
    constructor
    · rintro ((hx | rfl) | ⟨p, hp', rfl⟩)
      · exact Or.inl hx
      · exact Or.inr ⟨_, hp, rfl⟩
      · exact Or.inr ⟨p, List.mem_of_mem_eraseIdx hp', rfl⟩
    · rintro (hx | ⟨p, hp', rfl⟩)
      · exact Or.inl (Or.inl hx)
      · rcases System.mem_eraseIdx_or_eq hcall hp' with rfl | hin
        · exact Or.inl (Or.inr rfl)
        · exact Or.inr ⟨p, hin, rfl⟩
  have hpending : ∀ x, s.Pending new x → s'.Pending new x := by
    intro x hx
    rw [hs']
    exact hx.eraseIdx hcall _
  have hacked : ∀ x ∈ s'.acked, s.cluster.Stores (route x.chatId (φ.readN old new)) x := by
    intro x hx
    rw [hs'] at hx
    rcases List.mem_append.mp hx with hx | hx
    · exact h.acked x hx
    · rw [List.mem_singleton.mp hx]
      exact hdone _ (hroutes ▸ Phase.read_mem_routes old new φ m.chatId)
  have hcalls : ∀ p ∈ s'.inflight, ∃ done, φ.routes old new p.message.chatId = done ++ p.pools ∧
      ∀ i ∈ done, s.cluster.Stores i p.message := by
    intro p hp'
    rw [hs'] at hp'
    exact h.calls p (List.mem_of_mem_eraseIdx hp')
  have hstored : ∀ i x, s.cluster.Stores i x → x ∈ s'.known := fun i x hx =>
    (hknown x).mpr (h.stored_known i x hx)
  have hagree : ∀ x ∈ s'.known, ∀ y ∈ s'.known, x.messageId = y.messageId → x = y :=
    fun x hx y hy => h.agree x ((hknown x).mp hx) y ((hknown y).mp hy)
  have hscan : ∀ b, s.running = some b → b.Scans new old (s'.Pending new) s.cluster := fun b hb =>
    (h.scan b hb).mono hpending
  have htail : φ = .copied →
      TailCovered new old (s'.Pending new) (fun _ _ => False) s.cluster := fun hφ =>
    (h.tail hφ).mono hpending
  subst hs'
  exact ⟨h.runs, h.raised, h.running, hstored, hagree, hcalls, hacked, h.placed, hscan, htail⟩

/-! ### The operator -/

/-- A change of the flags between two calls leads to the phase of the new flags, provided that phase
reads where the returned messages are. -/
theorem PhaseInv.assign (h : PhaseInv N old new φ s) (hquiet : s.inflight = [])
    (hrun : s.running = none) {φ' : Phase} {r w : Option Int} {d : Option Bool}
    (hruns : Runs N old new φ' (s.cluster.assign r w d)) (hφ' : φ' ≠ .copying)
    (hacked : ∀ m ∈ s.acked, s.cluster.Stores (route m.chatId (φ'.readN old new)) m)
    (hplaces : ∀ i chatId, φ.Places old new i chatId → φ'.Places old new i chatId)
    (htail : φ' = .copied → φ = .copied) (rest : List Command) :
    PhaseInv N old new φ' { s with cluster := s.cluster.assign r w d, script := rest } where
  runs := hruns
  raised := h.raised
  running := by
    simp only [hrun]
    exact ⟨fun hs => absurd hs (by simp), fun hφ => absurd hφ hφ'⟩
  stored_known := h.stored_known
  agree := h.agree
  calls := by
    intro p hp
    rw [show p ∈ s.inflight ↔ False by rw [hquiet]; simp] at hp
    exact hp.elim
  acked := hacked
  placed := fun i m hm => hplaces i _ (h.placed i m hm)
  scan := by
    intro b hb
    simp only [hrun] at hb
    exact absurd hb (by simp)
  tail := fun hφ => h.tail (htail hφ)

theorem System.not_pending_of_quiet (hquiet : s.inflight = []) (n : Nat) (m : Message) :
    ¬ s.Pending n m := by
  rintro ⟨p, hp, -⟩
  rw [hquiet] at hp
  exact absurd hp List.not_mem_nil

/-- Once backfill has returned and no call is in flight, every message has reached its new shard. -/
theorem PhaseInv.copied_stores (h : PhaseInv N old new .copied s) (hold : 1 ≤ old)
    (hquiet : s.inflight = []) {i : Nat} {m : Message} (hm : s.cluster.Stores i m) :
    s.cluster.Stores (route m.chatId new) m := by
  rcases h.placed i m hm with hi | hi
  · obtain ⟨r, hr, hrm⟩ := hm
    have hi' : i < old := hi ▸ route_lt m.chatId hold
    rcases h.tail rfl i hi' r hr with ht | hp | hf
    · rwa [hrm] at ht
    · exact absurd hp (System.not_pending_of_quiet hquiet new _)
    · exact hf.elim
  · rwa [hi] at hm

/-- **Verify does not raise** once backfill has returned and no call is in flight. -/
theorem PhaseInv.cmdVerify_ok (h : PhaseInv N old new .copied s) (hold : 1 ≤ old) (hnew : 1 ≤ new)
    (hoN : old ≤ N) (hnN : new ≤ N) (hquiet : s.inflight = []) :
    cmdVerify s.cluster new = .ok () := by
  have hn := h.runs.nShards
  rw [cmdVerify_ok_iff (r := old) h.runs.readN (by omega) hnew (by omega)]
  intro src _ row hrow
  refine Or.inr ?_
  obtain ⟨r, hr, hrm⟩ := h.copied_stores hold hquiet ⟨row, hrow, rfl⟩
  refine (SerialTable.contains_iff _ _).mpr ⟨r, hr, ?_⟩
  unfold StoredMessage.messageId
  rw [hrm]

/-- Cleanup keeps the copy of every message on its new shard. -/
theorem PhaseInv.cleanup (h : PhaseInv N old new .single s) (hquiet : s.inflight = [])
    (hrun : s.running = none) {c : DialogsCluster} (hn : c.nShards = s.cluster.nShards)
    (hr : c.readN = s.cluster.readN) (hw : c.writeN = s.cluster.writeN)
    (hd : c.dualWrite = s.cluster.dualWrite)
    (hrows : ∀ i row, row ∈ (c.shard i).rows ↔
      row ∈ (s.cluster.shard i).rows ∧ (i < new → route row.val.message.chatId new = i))
    (hnew : 1 ≤ new) (rest : List Command) :
    PhaseInv N old new .cleaned { s with cluster := c, script := rest } where
  runs :=
    { nShards := hn.trans h.runs.nShards
      readN := hr.trans h.runs.readN
      writeN := hw.trans h.runs.writeN
      dualWrite := hd.trans h.runs.dualWrite }
  raised := h.raised
  running := by simp [hrun]
  stored_known := by
    rintro i m ⟨r, hr, rfl⟩
    exact h.stored_known i _ ⟨r, ((hrows i r).mp hr).1, rfl⟩
  agree := h.agree
  calls := by
    intro p hp
    rw [show p ∈ s.inflight ↔ False by rw [hquiet]; simp] at hp
    exact hp.elim
  acked := by
    intro m hm
    obtain ⟨r, hr, rfl⟩ := h.acked m hm
    exact ⟨r, (hrows _ r).mpr ⟨hr, fun _ => rfl⟩, rfl⟩
  placed := by
    rintro i m ⟨r, hr, rfl⟩
    obtain ⟨hr', hi⟩ := (hrows i r).mp hr
    by_cases hin : i < new
    · exact Or.inl (hi hin).symm
    · rcases h.placed i _ ⟨r, hr', rfl⟩ with ho | hnw
      · exact Or.inr ⟨not_lt.mp hin, ho⟩
      · exact absurd (hnw ▸ route_lt _ hnew) hin
  scan := by
    intro b hb
    simp only [hrun] at hb
    exact absurd hb (by simp)
  tail := fun hφ => absurd hφ (by decide)

/-- **The next command of an admitted script leads to the next phase.** -/
theorem PhaseInv.nextCommand (h : PhaseInv N old new φ s) (hold : 1 ≤ old) (hnew : 1 ≤ new)
    (hoN : old ≤ N) (hnN : new ≤ N) {goal : Phase} (hscript : Admits new φ.settled s.script goal)
    (hstep : s.nextCommand true = some s') :
    ∃ φ', Admits new φ'.settled s'.script goal ∧ PhaseInv N old new φ' s' := by
  obtain ⟨cmd, rest, hrun, hs, hquiet, hs'⟩ := System.nextCommand_cases hstep
  have hφ : φ ≠ .copying := by
    intro hφ
    have := h.running.mpr hφ
    rw [hrun] at this
    exact absurd this (by simp)
  have hset : φ.settled = φ := by
    cases φ with
    | copying => exact absurd rfl hφ
    | _ => rfl
  rw [hset, hs] at hscript
  obtain ⟨φ₁, hadv, hrest⟩ := admits_cons.mp hscript
  have hcommand : ∀ c, System.isBackfill cmd = false → cmd.run s.cluster = .ok () c →
      s' = { s with cluster := c, script := rest } := by
    intro c hcmd hok
    rw [hs']
    exact System.runCommand_of_ok (s := { s with script := rest }) hcmd hok
  have hassign : ∀ {φ' : Phase} {r w : Option Int} {d : Option Bool},
      Runs N old new φ' (s.cluster.assign r w d) →
        reconfigure r w d s.cluster = .ok () (s.cluster.assign r w d) := fun hruns =>
    (reconfigure_ok_iff _ _ _ _ _).mpr ⟨rfl, hruns.valid hold hnew hoN hnN⟩
  have hn := h.runs.nShards
  rcases Phase.advance_cases hadv with ⟨rfl, rfl, rfl⟩ | ⟨rfl, rfl, rfl⟩ | ⟨rfl, rfl, rfl⟩ |
    ⟨rfl, rfl, rfl⟩ | ⟨rfl, rfl, rfl⟩ | ⟨rfl, rfl, rfl⟩
  · -- enable_dual_write
    have hruns : Runs N old new .dual (s.cluster.assign none (some ↑new) (some true)) :=
      ⟨hn, h.runs.readN, rfl, rfl⟩
    rw [hcommand _ rfl (hassign hruns)]
    exact ⟨.dual, hrest, h.assign (hquiet rfl rfl) hrun hruns (by decide) h.acked
      (fun _ _ hi => Or.inl hi) (fun hc => absurd hc (by decide)) rest⟩
  · -- backfill
    have hstart : s' = { s with script := rest, running := some (Backfill.start new old) } := by
      rw [hs']
      unfold System.runCommand System.startBackfill
      simp only [h.runs.dualWrite, h.runs.readN, Phase.dualWrite, Phase.readN, if_true,
        Int.toNat_natCast]
    rw [hstart]
    refine ⟨.copying, hrest, ⟨hn, h.runs.readN, h.runs.writeN, h.runs.dualWrite⟩, h.raised,
      by simp, h.stored_known, h.agree, h.calls, h.acked, h.placed, ?_,
      fun hc => absurd hc (by decide)⟩
    intro b hb
    cases hb
    exact Backfill.scans_start new old _ _
  · -- verify
    have hruns : Runs N old new .copied (s.cluster.assign none none none) :=
      ⟨hn, h.runs.readN, h.runs.writeN, h.runs.dualWrite⟩
    have hok : (Command.verify new).run s.cluster = .ok () s.cluster := by
      show (get >>= fun c => liftExcept (cmdVerify c new)) s.cluster = _
      rw [bind_eq_of_ok (get_eq _)]
      exact liftExcept_of_ok (h.cmdVerify_ok hold hnew hoN hnN (hquiet rfl rfl)) _
    rw [hcommand _ rfl hok]
    exact ⟨.copied, hrest, h.assign (hquiet rfl rfl) hrun hruns (by decide) h.acked
      (fun _ _ hi => hi) (fun _ => rfl) rest⟩
  · -- switch_read
    have hruns : Runs N old new .switched (s.cluster.assign (some ↑new) none none) :=
      ⟨hn, rfl, h.runs.writeN, h.runs.dualWrite⟩
    rw [hcommand _ rfl (hassign hruns)]
    exact ⟨.switched, hrest, h.assign (hquiet rfl rfl) hrun hruns (by decide)
      (fun m hm => h.copied_stores hold (hquiet rfl rfl) (h.acked m hm))
      (fun _ _ hi => hi) (fun hc => absurd hc (by decide)) rest⟩
  · -- disable_dual_write
    have hruns : Runs N old new .single (s.cluster.assign none none (some false)) :=
      ⟨hn, h.runs.readN, h.runs.writeN, rfl⟩
    rw [hcommand _ rfl (hassign hruns)]
    exact ⟨.single, hrest, h.assign (hquiet rfl rfl) hrun hruns (by decide) h.acked
      (fun _ _ hi => hi) (fun hc => absurd hc (by decide)) rest⟩
  · -- cleanup
    obtain ⟨c, hok, hcn, hcr, hcw, hcd, hrows⟩ :=
      cmdCleanup_spec (n := new) h.runs.dualWrite hnew (by omega)
    rw [hcommand _ rfl hok]
    exact ⟨.cleaned, hrest, h.cleanup (hquiet rfl rfl) hrun hcn hcr hcw hcd hrows hnew rest⟩

/-- **An await of backfill stays in its phase or ends it.** -/
theorem PhaseInv.awaitBackfill (h : PhaseInv N old new φ s) (hnew : 1 ≤ new)
    (hoN : old ≤ N) (hnN : new ≤ N) {goal : Phase} (hscript : Admits new φ.settled s.script goal)
    (hstep : s.awaitBackfill = some s') :
    ∃ φ', Admits new φ'.settled s'.script goal ∧ PhaseInv N old new φ' s' := by
  obtain ⟨b, hrun, -⟩ := System.awaitBackfill_cases hstep
  obtain rfl : φ = .copying := h.running.mp (by rw [hrun]; rfl)
  have hn := h.runs.nShards
  obtain ⟨ob, c, hok, hcopies, hnext⟩ :=
    (h.scan b hrun).step hnew (by omega) (by omega) h.copiesAgree
  have hs' := System.awaitBackfill_of_ok hstep hrun hok
  have hacked : ∀ m ∈ s.acked, c.Stores (route m.chatId old) m := fun m hm =>
    hcopies.stores (h.acked m hm)
  have hstored : ∀ i m, c.Stores i m → m ∈ s.known := by
    intro i m hm
    obtain ⟨j, hj⟩ := hcopies.exists_stores hm
    exact h.stored_known j m hj
  have hplaced : ∀ i m, c.Stores i m →
      i = route m.chatId old ∨ i = route m.chatId new := by
    intro i m hm
    rcases hcopies.stores_inv hm with hm | ⟨hi, -⟩
    · exact h.placed i m hm
    · exact Or.inr hi
  have hcalls : ∀ p ∈ s.inflight, ∃ done,
      Phase.routes old new .copying p.message.chatId = done ++ p.pools ∧
        ∀ i ∈ done, c.Stores i p.message := by
    intro p hp
    obtain ⟨done, hd, hst⟩ := h.calls p hp
    exact ⟨done, hd, fun i hi => hcopies.stores (hst i hi)⟩
  subst hs'
  cases ob with
  | some b' =>
      refine ⟨.copying, hscript, h.runs.copies hcopies, h.raised, by simp, hstored, h.agree, hcalls,
        hacked, hplaced, ?_, fun hφ => absurd hφ (by decide)⟩
      intro b₁ hb₁
      cases hb₁
      exact hnext
  | none =>
      have hruns := h.runs.copies hcopies
      exact ⟨.copied, hscript, ⟨hruns.nShards, hruns.readN, hruns.writeN, hruns.dualWrite⟩, h.raised,
        by simp, hstored, h.agree, hcalls, hacked, hplaced, fun _ hb => absurd hb (by simp),
        fun _ => hnext⟩

/-- **The invariant is kept by every step** that the discipline of the test allows. -/
theorem PhaseInv.step (h : PhaseInv N old new φ s) (hold : 1 ≤ old) (hnew : 1 ≤ new)
    (hoN : old ≤ N) (hnN : new ≤ N) {goal : Phase} (hscript : Admits new φ.settled s.script goal)
    {a : Action} (hstep : System.step true a s = some s') :
    ∃ φ', Admits new φ'.settled s'.script goal ∧ PhaseInv N old new φ' s' := by
  have hv := h.runs.valid hold hnew hoN hnN
  cases a with
  | send fromId toId text messageId =>
      have hs' := (System.beginSend_cases hstep hv).2
      exact ⟨φ, by rw [hs']; exact hscript, h.beginSend hv hstep⟩
  | insert call now =>
      obtain ⟨m, idx, rest, -, hs'⟩ := System.runInsert_cases hstep
      exact ⟨φ, by rw [hs']; exact hscript, h.runInsert hv hstep⟩
  | sendReturns call =>
      obtain ⟨m, -, hs'⟩ := System.endSend_cases hstep
      exact ⟨φ, by rw [hs']; exact hscript, h.endSend hstep⟩
  | command => exact h.nextCommand hold hnew hoN hnN hscript hstep
  | backfill => exact h.awaitBackfill hnew hoN hnN hscript hstep

end Preservation

end HighLoad.Dialogs
