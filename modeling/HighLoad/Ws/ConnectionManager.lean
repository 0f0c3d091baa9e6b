/-
# HighLoad.Ws.ConnectionManager — the socket registry (`app/ws/connection_manager.py`)

`connect` and `disconnect` change the registry in one section under the manager's lock and await a
callback after it; `push` takes a snapshot under the lock, sends outside it and removes the broken
sockets one `disconnect` at a time. `System` runs any number of such calls, one await at a time, and
keeps beside them what happened: the registry steps, the decisions `is_first` and `is_last`, and the
effects of the callbacks at the broker. `decisions_alternate` is the invariant of the registry and
of the decisions over every schedule.
-/
import HighLoad.Base
import HighLoad.Lib.Schedule
import Mathlib.Algebra.GroupWithZero.Nat
import Mathlib.Data.List.AList
import Mathlib.Data.Finset.Card
import Mathlib.Data.Finset.Insert
import Mathlib.Data.Finset.Erase

namespace HighLoad.Ws

/-- A `WebSocket` object, by its identity. -/
abbrev WebSocket := Nat

/-- `_conns: dict[UUID, set[WebSocket]]`. -/
abbrev Conns := AList fun _ : Uuid => Finset WebSocket

namespace Conns

/-- The registered sockets of a user; a user without an entry has none. -/
def sockets (conns : Conns) (userId : Uuid) : Finset WebSocket := (conns.lookup userId).getD ∅

/-- The locked section of `connect`: the new registry and `is_first`. -/
def connect (conns : Conns) (userId : Uuid) (ws : WebSocket) : Bool × Conns :=
  (conns.sockets userId = ∅, conns.insert userId (insert ws (conns.sockets userId)))

/-- The locked section of `disconnect`: the new registry and `is_last`. -/
def disconnect (conns : Conns) (userId : Uuid) (ws : WebSocket) : Bool × Conns :=
  match conns.lookup userId with
  | none => (false, conns)
  | some sockets =>
      if sockets.erase ws = ∅ then (true, conns.erase userId)
      else (false, conns.insert userId (sockets.erase ws))

/-- `active_users()`. -/
def activeUsers (conns : Conns) : List Uuid := conns.keys

/-- `total_connections()`. -/
def totalConnections (conns : Conns) : Nat := (conns.entries.map fun e => e.2.card).sum

/-- No entry is an empty set. -/
def NoEmpty (conns : Conns) : Prop := ∀ u sockets, conns.lookup u = some sockets → sockets ≠ ∅

theorem noEmpty_empty : NoEmpty (∅ : Conns) := by
  intro u sockets h
  rw [AList.lookup_empty] at h
  exact absurd h (by simp)

/-- Without empty entries a user has sockets exactly when it has an entry. -/
theorem NoEmpty.lookup_eq_none_iff {conns : Conns} (h : conns.NoEmpty) (u : Uuid) :
    conns.lookup u = none ↔ conns.sockets u = ∅ := by
  unfold sockets
  cases hu : conns.lookup u with
  | none => simp
  | some sockets => simpa using h u sockets hu

/-- Then `active_users` lists the users with sockets. -/
theorem NoEmpty.mem_activeUsers_iff {conns : Conns} (h : conns.NoEmpty) (u : Uuid) :
    u ∈ conns.activeUsers ↔ conns.sockets u ≠ ∅ := by
  rw [← not_iff_not, not_ne_iff, ← h.lookup_eq_none_iff u, AList.lookup_eq_none]
  rfl

/-! ### The two locked sections -/

@[simp] theorem sockets_insert_self (conns : Conns) (u : Uuid) (s : Finset WebSocket) :
    sockets (conns.insert u s) u = s := by
  simp [sockets]

theorem sockets_insert_ne (conns : Conns) {u v : Uuid} (h : v ≠ u) (s : Finset WebSocket) :
    sockets (conns.insert u s) v = conns.sockets v := by
  simp [sockets, AList.lookup_insert_ne h]

@[simp] theorem sockets_erase_self (conns : Conns) (u : Uuid) : sockets (conns.erase u) u = ∅ := by
  simp [sockets]

theorem sockets_erase_ne (conns : Conns) {u v : Uuid} (h : v ≠ u) :
    sockets (conns.erase u) v = conns.sockets v := by
  simp [sockets, AList.lookup_erase_ne h]

/-- `connect` registers the socket and nothing else. -/
theorem mem_sockets_connect {conns : Conns} {u v : Uuid} {ws ws' : WebSocket} :
    ws' ∈ (conns.connect u ws).2.sockets v ↔ (v = u ∧ ws' = ws) ∨ ws' ∈ conns.sockets v := by
  by_cases hv : v = u
  · subst hv
    simp [connect]
  · simp [connect, sockets_insert_ne _ hv, hv]

/-- `disconnect` removes the socket and nothing else. -/
theorem mem_sockets_disconnect {conns : Conns} {u v : Uuid} {ws ws' : WebSocket} :
    ws' ∈ (conns.disconnect u ws).2.sockets v ↔ ¬ (v = u ∧ ws' = ws) ∧ ws' ∈ conns.sockets v := by
  unfold disconnect
  cases hu : conns.lookup u with
  | none =>
      have hempty : conns.sockets u = ∅ := by simp [sockets, hu]
      by_cases hv : v = u
      · subst hv
        simp [hempty]
      · simp [hv]
  | some s =>
      have hs : conns.sockets u = s := by simp [sockets, hu]
      by_cases hlast : s.erase ws = ∅
      · simp only [if_pos hlast]
        by_cases hv : v = u
        · subst hv
          rw [sockets_erase_self, hs]
          constructor
          · intro h
            exact absurd h (Finset.notMem_empty _)
          · rintro ⟨hne, hmem⟩
            rw [← hlast]
            exact Finset.mem_erase.mpr ⟨fun h => hne ⟨rfl, h⟩, hmem⟩
        · simp [sockets_erase_ne _ hv, hv]
      · simp only [if_neg hlast]
        by_cases hv : v = u
        · subst hv
          simp [hs]
        · simp [sockets_insert_ne _ hv, hv]

theorem NoEmpty.connect {conns : Conns} (h : conns.NoEmpty) (u : Uuid) (ws : WebSocket) :
    (conns.connect u ws).2.NoEmpty := by
  intro v s hs
  by_cases hv : v = u
  · subst hv
    rw [Conns.connect, AList.lookup_insert] at hs
    obtain rfl := Option.some.inj hs
    exact Finset.insert_ne_empty _ _
  · rw [Conns.connect, AList.lookup_insert_ne hv] at hs
    exact h v s hs

theorem NoEmpty.disconnect {conns : Conns} (h : conns.NoEmpty) (u : Uuid) (ws : WebSocket) :
    (conns.disconnect u ws).2.NoEmpty := by
  unfold Conns.disconnect
  cases hu : conns.lookup u with
  | none => exact h
  | some sockets =>
      by_cases hlast : sockets.erase ws = ∅
      · simp only [if_pos hlast]
        intro v s hs
        by_cases hv : v = u
        · subst hv
          rw [AList.lookup_erase] at hs
          exact absurd hs (by simp)
        · rw [AList.lookup_erase_ne hv] at hs
          exact h v s hs
      · simp only [if_neg hlast]
        intro v s hs
        by_cases hv : v = u
        · subst hv
          rw [AList.lookup_insert] at hs
          obtain rfl := Option.some.inj hs
          exact hlast
        · rw [AList.lookup_insert_ne hv] at hs
          exact h v s hs

/-- `is_last` is decided when the user had sockets and has none left. -/
theorem disconnect_fst_iff {conns : Conns} (h : conns.NoEmpty) (u : Uuid) (ws : WebSocket) :
    (conns.disconnect u ws).1 = true ↔
      conns.sockets u ≠ ∅ ∧ (conns.disconnect u ws).2.sockets u = ∅ := by
  unfold disconnect
  cases hu : conns.lookup u with
  | none =>
      have hempty : conns.sockets u = ∅ := (h.lookup_eq_none_iff u).mp hu
      simp [hempty]
  | some s =>
      have hs : conns.sockets u = s := by simp [sockets, hu]
      have hne : s ≠ ∅ := h u s hu
      by_cases hlast : s.erase ws = ∅
      · simp only [if_pos hlast]
        simp [hs, hne]
      · simp only [if_neg hlast]
        simp [hlast]

/-- **The total counts the registered pairs**, whichever way they are listed. -/
theorem totalConnections_eq_card {conns : Conns} {pairs : Finset (Uuid × WebSocket)}
    (h : ∀ u ws, (u, ws) ∈ pairs ↔ ws ∈ conns.sockets u) :
    conns.totalConnections = pairs.card := by
  set flat := conns.entries.flatMap fun e => e.2.toList.map (Prod.mk e.1) with hflat
  have hlength : flat.length = conns.totalConnections := by
    rw [hflat, totalConnections, List.length_flatMap]
    simp
  have hnodup : flat.Nodup := by
    rw [hflat, List.nodup_flatMap]
    refine ⟨fun e _ => e.2.nodup_toList.map (Prod.mk_right_injective e.1), ?_⟩
    refine (List.nodupKeys_iff_pairwise.mp conns.nodupKeys).imp ?_
    intro e e' hne
    -- the pairs of two entries differ in the user
    rw [Function.onFun, List.disjoint_left]
    intro p hp hp'
    obtain ⟨ws, -, rfl⟩ := List.mem_map.mp hp
    obtain ⟨ws', -, heq⟩ := List.mem_map.mp hp'
    exact hne (congrArg Prod.fst heq).symm
  have hpairs : flat.toFinset = pairs := by
    ext ⟨u, ws⟩
    rw [h, List.mem_toFinset, hflat, List.mem_flatMap, sockets]
    constructor
    · rintro ⟨e, he, hws⟩
      obtain ⟨ws', hws', heq⟩ := List.mem_map.mp hws
      obtain ⟨rfl, rfl⟩ := Prod.mk.inj heq
      have hlookup : conns.lookup e.1 = some e.2 := AList.mem_lookup_iff.mpr he
      rw [hlookup]
      exact Finset.mem_toList.mp hws'
    · intro hws
      cases hu : conns.lookup u with
      | none => simp [hu] at hws
      | some s =>
          rw [hu] at hws
          exact ⟨⟨u, s⟩, AList.mem_lookup_iff.mp hu,
            List.mem_map.mpr ⟨ws, Finset.mem_toList.mpr hws, rfl⟩⟩
  rw [← hlength, ← hpairs, List.toFinset_card_of_nodup hnodup]

end Conns

/-! ## Calls, one await at a time -/

/-- A callback that a call awaits: `_on_connect` binds, `_on_disconnect` unbinds. `seq` numbers the
decisions of the user, `applied` says whether the broker has carried it out. -/
structure Callback where
  userId : Uuid
  seq : Nat
  binds : Bool
  applied : Bool
  deriving DecidableEq

/-- A running call. `connect` and `disconnect` are at their callback, `push` at one of its sends or at
the removal of a broken socket; a call that has nothing left returns with its next step. -/
inductive Task where
  | callback (cb : Callback) (broken : List WebSocket)
  | sending (userId : Uuid) (rest broken : List WebSocket)
  | dropping (userId : Uuid) (broken : List WebSocket)
  deriving DecidableEq

/-- A registry step: `connect` when `adds`, `disconnect` otherwise. -/
structure RegistryStep where
  pair : Uuid × WebSocket
  adds : Bool

/-- A decision: `is_first` or, when not `first`, `is_last`. -/
structure Decision where
  userId : Uuid
  first : Bool

/-- The manager, the broker's bindings of the instance queue and the running calls, with their
history: registry steps newest first, decisions and effects at the broker oldest first. -/
structure System where
  conns : Conns
  bound : Uuid → Bool
  tasks : List Task
  steps : List RegistryStep
  decisions : List Decision
  effects : List Callback

namespace System

/-- An instance that has just started. -/
def start : System where
  conns := ∅
  bound := fun _ => false
  tasks := []
  steps := []
  decisions := []
  effects := []

/-- The decisions about a user. -/
def decisionsOf (s : System) (u : Uuid) : List Bool :=
  (s.decisions.filter fun d => d.userId = u).map Decision.first

/-- The registry after the locked section of `connect`, and the decision it took. -/
def registered (s : System) (u : Uuid) (ws : WebSocket) : System :=
  { s with
    conns := (s.conns.connect u ws).2
    steps := ⟨(u, ws), true⟩ :: s.steps
    decisions := if (s.conns.connect u ws).1 then s.decisions ++ [⟨u, true⟩] else s.decisions }

/-- The registry after the locked section of `disconnect`, and the decision it took. -/
def unregistered (s : System) (u : Uuid) (ws : WebSocket) : System :=
  { s with
    conns := (s.conns.disconnect u ws).2
    steps := ⟨(u, ws), false⟩ :: s.steps
    decisions := if (s.conns.disconnect u ws).1 then s.decisions ++ [⟨u, false⟩] else s.decisions }

/-- The callback of the next decision about `u`. -/
def nextCallback (s : System) (u : Uuid) (binds : Bool) : Callback :=
  ⟨u, (s.decisionsOf u).length, binds, false⟩

/-- The effect of a callback at the broker. -/
def carriedOut (s : System) (cb : Callback) : System :=
  { s with
    bound := Function.update s.bound cb.userId cb.binds
    effects := s.effects ++ [{ cb with applied := true }] }

/-- What happens next: a call starts, or task `i` takes its next step. -/
inductive Action where
  | connect (userId : Uuid) (ws : WebSocket)
  | disconnect (userId : Uuid) (ws : WebSocket)
  | push (userId : Uuid) (sockets : List WebSocket)
  | resume (i : Nat) (sent : Bool)
  deriving DecidableEq

/-- `disconnect` up to its callback; `broken` is what a `push` around it has still to remove. -/
def disconnectWith (s : System) (u : Uuid) (ws : WebSocket) (broken : List WebSocket) :
    Option Task × System :=
  (if (s.conns.disconnect u ws).1 then some (.callback (s.nextCallback u false) broken)
    else none, s.unregistered u ws)

/-- The next step of a task: what becomes of it, and the state beside it. -/
def advance (s : System) (sent : Bool) : Task → Option Task × System
  | .callback cb broken =>
      if cb.applied then (some (.dropping cb.userId broken), s)
      else (some (.callback { cb with applied := true } broken), s.carriedOut cb)
  | .sending u [] broken => (some (.dropping u broken), s)
  | .sending u (ws :: rest) broken =>
      (some (.sending u rest (if sent then broken else broken ++ [ws])), s)
  | .dropping _ [] => (none, s)
  | .dropping u (ws :: broken) =>
      ((s.disconnectWith u ws broken).1.orElse fun _ => some (.dropping u broken),
        (s.disconnectWith u ws broken).2)

/-- A new call starts, or one of the running calls takes a step. The order in which `push` meets the
sockets of its snapshot is the environment's choice. -/
def step (a : Action) (s : System) : Option System :=
  match a with
  | .connect u ws =>
      some { s.registered u ws with
        tasks := s.tasks ++ if (s.conns.connect u ws).1
          then [.callback (s.nextCallback u true) []] else [] }
  | .disconnect u ws =>
      some { (s.disconnectWith u ws []).2 with
        tasks := s.tasks ++ (s.disconnectWith u ws []).1.toList }
  | .push u sockets =>
      if sockets.Nodup ∧ sockets.toFinset = s.conns.sockets u then
        some { s with
          tasks := s.tasks ++ if sockets = [] then [] else [.sending u sockets []] }
      else none
  | .resume i sent =>
      match s.tasks[i]? with
      | none => none
      | some task =>
          some { (s.advance sent task).2 with
            tasks := s.tasks.take i ++ (s.advance sent task).1.toList ++ s.tasks.drop (i + 1) }

/-- The pairs whose latest registry step was a connect. -/
def connectedPairs (s : System) : Finset (Uuid × WebSocket) :=
  (s.steps.map RegistryStep.pair).toFinset.filter fun p =>
    (s.steps.find? fun e => e.pair = p).map RegistryStep.adds = some true

/-! ## What a step does to the registry -/

/-- The registry and its history are the same in two states. -/
structure SameRegistry (s s' : System) : Prop where
  conns : s'.conns = s.conns
  steps : s'.steps = s.steps
  decisions : s'.decisions = s.decisions

/-- **What one step can do to the registry**: nothing, or one locked section. -/
theorem step_registry {a : Action} {s s' : System} (h : step a s = some s') :
    s.SameRegistry s' ∨ ∃ u ws, (s.registered u ws).SameRegistry s' ∨
      (s.unregistered u ws).SameRegistry s' := by
  cases a with
  | connect u ws =>
      obtain rfl := Option.some.inj h
      exact Or.inr ⟨u, ws, Or.inl ⟨rfl, rfl, rfl⟩⟩
  | disconnect u ws =>
      obtain rfl := Option.some.inj h
      exact Or.inr ⟨u, ws, Or.inr ⟨rfl, rfl, rfl⟩⟩
  | push u sockets =>
      simp only [step] at h
      by_cases hsnap : sockets.Nodup ∧ sockets.toFinset = s.conns.sockets u
      · rw [if_pos hsnap] at h
        obtain rfl := Option.some.inj h
        exact Or.inl ⟨rfl, rfl, rfl⟩
      · rw [if_neg hsnap] at h
        exact absurd h (by simp)
  | resume i sent =>
      simp only [step] at h
      cases htask : s.tasks[i]? with
      | none =>
          rw [htask] at h
          exact absurd h (by simp)
      | some task =>
          rw [htask] at h
          obtain rfl := Option.some.inj h
          cases task with
          | callback cb broken =>
              left
              by_cases hcb : cb.applied
              · simp only [advance, if_pos hcb]
                exact ⟨rfl, rfl, rfl⟩
              · simp only [advance, if_neg hcb]
                exact ⟨rfl, rfl, rfl⟩
          | sending u rest broken =>
              left
              cases rest with
              | nil => exact ⟨rfl, rfl, rfl⟩
              | cons ws rest => exact ⟨rfl, rfl, rfl⟩
          | dropping u broken =>
              cases broken with
              | nil => exact Or.inl ⟨rfl, rfl, rfl⟩
              | cons ws broken => exact Or.inr ⟨u, ws, Or.inr ⟨rfl, rfl, rfl⟩⟩

/-! ## The invariant of registry and decisions -/

/-- `True, False, True, …`, `n` of them. -/
def alternating (n : Nat) : List Bool := (List.range n).map fun i => decide (i % 2 = 0)

theorem alternating_succ (n : Nat) :
    alternating (n + 1) = alternating n ++ [decide (n % 2 = 0)] := by
  simp [alternating, List.range_succ]

theorem count_alternating (n : Nat) :
    (alternating n).count true = (n + 1) / 2 ∧ (alternating n).count false = n / 2 := by
  induction n with
  | zero => exact ⟨rfl, rfl⟩
  | succ n ih =>
      rw [alternating_succ, List.count_append, List.count_append, ih.1, ih.2]
      by_cases hn : n % 2 = 0
      · simp only [hn, decide_true, List.count_singleton_self]
        refine ⟨by omega, ?_⟩
        simp only [List.count_singleton, beq_iff_eq, Bool.true_eq_false, if_false]
        omega
      · simp only [hn, decide_false, List.count_singleton_self]
        refine ⟨?_, by omega⟩
        simp only [List.count_singleton, beq_iff_eq, Bool.false_eq_true, if_false]
        omega

/-- What every locked section keeps: no empty entries, decisions that alternate and are in step with
the registry, and a registry that agrees with the latest steps. -/
structure Consistent (s : System) : Prop where
  noEmpty : s.conns.NoEmpty
  alternate : ∀ u, s.decisionsOf u = alternating (s.decisionsOf u).length
  parity : ∀ u, (s.decisionsOf u).length % 2 = 1 ↔ s.conns.sockets u ≠ ∅
  latest : ∀ u ws, ws ∈ s.conns.sockets u ↔
    (s.steps.find? fun e => e.pair = (u, ws)).map RegistryStep.adds = some true

theorem consistent_start : start.Consistent where
  noEmpty := Conns.noEmpty_empty
  alternate := fun _ => rfl
  parity := fun u => by
    show 0 % 2 = 1 ↔ Conns.sockets ∅ u ≠ ∅
    simp [Conns.sockets]
  latest := fun u ws => by simp [start, Conns.sockets]

theorem decisionsOf_append (s : System) (d : Decision) (u : Uuid) :
    decisionsOf { s with decisions := s.decisions ++ [d] } u
      = s.decisionsOf u ++ if d.userId = u then [d.first] else [] := by
  by_cases h : d.userId = u <;> simp [decisionsOf, List.filter_append, h]

variable {s s' : System}

theorem Consistent.of_same (h : s.Consistent) (hsame : s.SameRegistry s') : s'.Consistent := by
  have hof : ∀ u, s'.decisionsOf u = s.decisionsOf u := fun u => by
    simp only [decisionsOf, hsame.decisions]
  exact
    { noEmpty := by rw [hsame.conns]; exact h.noEmpty
      alternate := fun u => by rw [hof]; exact h.alternate u
      parity := fun u => by rw [hof, hsame.conns]; exact h.parity u
      latest := fun u ws => by rw [hsame.conns, hsame.steps]; exact h.latest u ws }

/-- The decisions after a locked section that decides when `decides` holds. -/
theorem decisionsOf_ite (s : System) {decides : Bool} {u v : Uuid} {first : Bool} {s' : System}
    (h : s'.decisions = if decides then s.decisions ++ [⟨u, first⟩] else s.decisions) :
    s'.decisionsOf v
      = s.decisionsOf v ++ if decides = true ∧ u = v then [first] else [] := by
  have hof : s'.decisionsOf v = decisionsOf { s with
      decisions := if decides then s.decisions ++ [⟨u, first⟩] else s.decisions } v := by
    simp only [decisionsOf, h]
  rw [hof]
  cases decides with
  | false => simp [decisionsOf]
  | true =>
      simp only [if_true, decisionsOf_append]
      simp

/-- A section that decides `first` exactly when the number of decisions so far asks for it, and
decides exactly when the registry turns empty or nonempty, keeps the alternation. -/
theorem Consistent.decide_step (h : s.Consistent) (s' : System) {decides : Bool} {u : Uuid}
    {first : Bool}
    (hdecisions : s'.decisions = if decides then s.decisions ++ [⟨u, first⟩] else s.decisions)
    (hfirst : decides = true → first = decide (s.conns.sockets u = ∅))
    (hturn : ∀ v, (s'.conns.sockets v ≠ ∅ ↔ s.conns.sockets v ≠ ∅) ↔ ¬ (decides = true ∧ u = v)) :
    ∀ v, s'.decisionsOf v = alternating (s'.decisionsOf v).length ∧
      ((s'.decisionsOf v).length % 2 = 1 ↔ s'.conns.sockets v ≠ ∅) := by
  intro v
  rw [decisionsOf_ite s hdecisions]
  by_cases hv : decides = true ∧ u = v
  · obtain ⟨hd, rfl⟩ := hv
    rw [if_pos ⟨hd, rfl⟩]
    have hpar := h.parity u
    have hflip := (hturn u).not_left.mpr ⟨hd, rfl⟩
    have hval : first = decide ((s.decisionsOf u).length % 2 = 0) := by
      rw [hfirst hd, decide_eq_decide]
      by_cases hempty : s.conns.sockets u = ∅
      · simp only [hempty, true_iff]
        rw [hempty] at hpar
        have := hpar.not.mpr (by simp)
        omega
      · simp only [hempty, false_iff]
        have := hpar.mpr hempty
        omega
    refine ⟨?_, ?_⟩
    · rw [List.length_append, List.length_singleton, alternating_succ, ← h.alternate u, hval]
    · rw [List.length_append, List.length_singleton]
      by_cases hempty : s.conns.sockets u = ∅
      · have hnext : s'.conns.sockets u ≠ ∅ := by
          intro hnext
          exact hflip (by simp [hempty, hnext])
        have := hpar.not.mpr (by simp [hempty])
        simp only [ne_eq, hnext, not_false_eq_true, iff_true]
        omega
      · have hnext : s'.conns.sockets u = ∅ := by
          by_contra hnext
          exact hflip (by simp [hempty, hnext])
        have := hpar.mpr hempty
        simp only [hnext, ne_eq, not_true_eq_false, iff_false]
        omega
  · rw [if_neg hv, List.append_nil]
    refine ⟨h.alternate v, ?_⟩
    rw [h.parity v]
    exact ((hturn v).mpr hv).symm

/-- **The locked section of `connect` keeps the invariant.** -/
theorem Consistent.registered (h : s.Consistent) (u : Uuid) (ws : WebSocket) :
    (s.registered u ws).Consistent := by
  have hfirst : (s.conns.connect u ws).1 = decide (s.conns.sockets u = ∅) := rfl
  have hdec := h.decide_step (s.registered u ws) rfl
    (fun hd => by rw [← hfirst]; exact hd.symm) (by
      intro v
      show ((s.conns.connect u ws).2.sockets v ≠ ∅ ↔ _) ↔ _
      by_cases hv : v = u
      · subst hv
        have hmem : ws ∈ (s.conns.connect v ws).2.sockets v :=
          Conns.mem_sockets_connect.mpr (Or.inl ⟨rfl, rfl⟩)
        have hne := Finset.ne_empty_of_mem hmem
        simp [hfirst, hne]
      · have hsame : (s.conns.connect u ws).2.sockets v = s.conns.sockets v :=
          Conns.sockets_insert_ne _ hv _
        simp [hsame, Ne.symm hv])
  refine
    { noEmpty := h.noEmpty.connect u ws
      alternate := fun v => (hdec v).1
      parity := fun v => (hdec v).2
      latest := ?_ }
  intro v ws'
  show ws' ∈ (s.conns.connect u ws).2.sockets v ↔ _
  rw [Conns.mem_sockets_connect, h.latest v ws']
  show _ ↔ ((⟨(u, ws), true⟩ :: s.steps).find? fun e => e.pair = (v, ws')).map _ = _
  by_cases hp : v = u ∧ ws' = ws
  · obtain ⟨rfl, rfl⟩ := hp
    simp
  · have hp' : ¬ (u = v ∧ ws = ws') := fun hp' => hp ⟨hp'.1.symm, hp'.2.symm⟩
    simp [hp, hp']

/-- **The locked section of `disconnect` keeps the invariant.** -/
theorem Consistent.unregistered (h : s.Consistent) (u : Uuid) (ws : WebSocket) :
    (s.unregistered u ws).Consistent := by
  have hlast := Conns.disconnect_fst_iff h.noEmpty u ws
  have hdec := h.decide_step (s.unregistered u ws) rfl
    (fun hd => by simp [(hlast.mp hd).1]) (by
      intro v
      show ((s.conns.disconnect u ws).2.sockets v ≠ ∅ ↔ _) ↔ _
      by_cases hv : v = u
      · subst hv
        rw [hlast]
        -- a removal cannot turn an empty set into a nonempty one
        have hsub : s.conns.sockets v = ∅ → (s.conns.disconnect v ws).2.sockets v = ∅ := by
          intro hempty
          refine Finset.eq_empty_of_forall_notMem ?_
          intro ws' hws'
          have := (Conns.mem_sockets_disconnect.mp hws').2
          rw [hempty] at this
          exact absurd this (Finset.notMem_empty _)
        tauto
      · have hsame : (s.conns.disconnect u ws).2.sockets v = s.conns.sockets v := by
          ext ws'
          simp [Conns.mem_sockets_disconnect, hv]
        simp [hsame, Ne.symm hv])
  refine
    { noEmpty := h.noEmpty.disconnect u ws
      alternate := fun v => (hdec v).1
      parity := fun v => (hdec v).2
      latest := ?_ }
  intro v ws'
  show ws' ∈ (s.conns.disconnect u ws).2.sockets v ↔ _
  rw [Conns.mem_sockets_disconnect, h.latest v ws']
  show _ ↔ ((⟨(u, ws), false⟩ :: s.steps).find? fun e => e.pair = (v, ws')).map _ = _
  by_cases hp : v = u ∧ ws' = ws
  · obtain ⟨rfl, rfl⟩ := hp
    simp
  · have hp' : ¬ (u = v ∧ ws = ws') := fun hp' => hp ⟨hp'.1.symm, hp'.2.symm⟩
    simp [hp, hp']

/-- The run lemma. -/
theorem consistent_of_exec {acts : List Action} (h : exec step acts start = some s) :
    s.Consistent := by
  refine exec_invariant (P := Consistent) ?_ consistent_start h
  intro a _ t t' ht hstep
  rcases step_registry hstep with hsame | ⟨u, ws, hsame | hsame⟩
  · exact ht.of_same hsame
  · exact (ht.registered u ws).of_same hsame
  · exact (ht.unregistered u ws).of_same hsame

/-- **First-connect and last-disconnect decisions alternate in every run**, in step with the registry;
no empty set is stored, and the total counts the pairs whose latest step was a connect. -/
theorem decisions_alternate {acts : List Action} (h : exec step acts start = some s) :
    (∀ u, s.decisionsOf u = alternating (s.decisionsOf u).length ∧
      ((s.decisionsOf u).count true = (s.decisionsOf u).count false + 1 ↔
        s.conns.sockets u ≠ ∅)) ∧
      s.conns.NoEmpty ∧ s.conns.totalConnections = s.connectedPairs.card := by
  have hc := consistent_of_exec h
  refine ⟨fun u => ⟨hc.alternate u, ?_⟩, hc.noEmpty, ?_⟩
  · have hcount := count_alternating (s.decisionsOf u).length
    rw [← hc.alternate u] at hcount
    rw [← hc.parity u, hcount.1, hcount.2]
    omega
  · refine Conns.totalConnections_eq_card ?_
    intro u ws
    rw [hc.latest u ws, connectedPairs, Finset.mem_filter]
    refine and_iff_right_of_imp ?_
    intro hadds
    obtain ⟨e, he, -⟩ := Option.map_eq_some_iff.mp hadds
    have hpair : e.pair = (u, ws) := by simpa using List.find?_some he
    rw [← hpair]
    exact List.mem_toFinset.mpr (List.mem_map_of_mem (List.mem_of_find?_eq_some he))

/-- Two sockets of one user; a push finds the first broken and removes it, and its own disconnect
follows. -/
def brokenTab : List Action :=
  [.connect (.ofNat 1) 1, .connect (.ofNat 1) 2, .push (.ofNat 1) [1, 2], .resume 1 false,
    .resume 1 true, .resume 1 true, .resume 1 true, .disconnect (.ofNat 1) 1,
    .disconnect (.ofNat 1) 2]

theorem decisions_alternate_brokenTab :
    ∃ s, exec step brokenTab start = some s ∧
      (∀ u, s.decisionsOf u = alternating (s.decisionsOf u).length ∧
        ((s.decisionsOf u).count true = (s.decisionsOf u).count false + 1 ↔
          s.conns.sockets u ≠ ∅)) ∧
      s.conns.NoEmpty ∧ s.conns.totalConnections = s.connectedPairs.card := by
  have hrun : (exec step brokenTab start).isSome = true := by decide +kernel
  obtain ⟨s, hs⟩ := Option.isSome_iff_exists.mp hrun
  exact ⟨s, hs, decisions_alternate hs⟩

end System

end HighLoad.Ws
