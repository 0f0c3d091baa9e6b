/-
# HighLoad.RabbitClient — connecting the publisher (`app/rabbit_client.py`)

`RabbitClient.connect` checks `_connection` before and behind the lock and assigns it as soon as the
connection is there, before the channel and the exchange. Any number of calls run one await at a
time, each await may raise. `returned_means_publishing_iff` says for which runs a returned call means
that publishing works, also behind a call that raised: those in which no call makes one of its two
checks while the connection is assigned and the exchange is not. No call waits for ever: while one is in
flight, some await can complete, and each that does leaves fewer to come.
-/
import HighLoad.Base
import HighLoad.Lib.Schedule
import Mathlib.Algebra.GroupWithZero.Nat

namespace HighLoad.RabbitClient

/-- Where a call of `connect` stands. -/
inductive Phase where
  | waiting
  | connecting
  | openingChannel
  | settingQos
  | declaring
  | returned
  | raised
  deriving DecidableEq

/-- The class attributes and the calls; a connection, a channel and an exchange are known by the call
that made them. -/
structure Client where
  connection : Option Nat
  publisherChannel : Option Nat
  publisherExchange : Option Nat
  lock : Option Nat
  calls : List Phase
  deriving DecidableEq

/-- The awaits that a call has still before it, at most. -/
def Phase.outstanding : Phase → Nat
  | .waiting => 5
  | .connecting => 4
  | .openingChannel => 3
  | .settingQos => 2
  | .declaring => 1
  | .returned => 0
  | .raised => 0

/-- The call holds the lock. -/
def Phase.locked : Phase → Bool
  | .connecting => true
  | .openingChannel => true
  | .settingQos => true
  | .declaring => true
  | _ => false

namespace Client

/-- The class before any call. -/
def start : Client where
  connection := none
  publisherChannel := none
  publisherExchange := none
  lock := none
  calls := []

/-- The exception of the accessors. -/
def notConnected : PyError := .runtimeError "RabbitClient is not connected"

/-- `connection()`. -/
def getConnection (s : Client) : Except PyError Nat :=
  match s.connection with
  | none => .error notConnected
  | some connection => .ok connection

/-- `exchange()`. -/
def getExchange (s : Client) : Except PyError Nat :=
  match s.publisherExchange with
  | none => .error notConnected
  | some exchange => .ok exchange

/-- The call `i` has come to phase `p`. -/
def goto (s : Client) (i : Nat) (p : Phase) : Client := { s with calls := s.calls.set i p }

/-- The call `i` leaves the lock, by a return or by an exception. -/
def leave (s : Client) (i : Nat) (p : Phase) : Client := { s.goto i p with lock := none }

/-- What happens next: a call begins, or the await of call `i` completes or raises. -/
inductive Action where
  | connect
  | resume (i : Nat) (ok : Bool)
  deriving DecidableEq

/-- The await of call `i`, which is in phase `p`. -/
def advance (s : Client) (i : Nat) (ok : Bool) : Phase → Option Client
  | .waiting =>
      -- the lock is granted; the second check returns or goes on to `connect_robust`
      if s.lock ≠ none then none
      else if s.connection ≠ none then some (s.goto i .returned)
      else some { s.goto i .connecting with lock := some i }
  | .connecting =>
      if ok then some { s.goto i .openingChannel with connection := some i }
      else some (s.leave i .raised)
  | .openingChannel => some (if ok then s.goto i .settingQos else s.leave i .raised)
  | .settingQos => some (if ok then s.goto i .declaring else s.leave i .raised)
  | .declaring =>
      if ok then some { s.leave i .returned with
        publisherChannel := some i
        publisherExchange := some i }
      else some (s.leave i .raised)
  | .returned => none
  | .raised => none

/-- One step of the event loop. -/
def step (a : Action) (s : Client) : Option Client :=
  match a with
  | .connect =>
      some { s with calls := s.calls ++ [if s.connection ≠ none then .returned else .waiting] }
  | .resume i ok => (s.calls[i]?).bind (s.advance i ok)

/-- In every state of the run in which some call has returned, `connection()` and `exchange()` do not
raise. -/
def ReturnedMeansPublishing (acts : List Action) : Prop :=
  ∀ pre s, pre <+: acts → exec step pre start = some s → .returned ∈ s.calls →
    (∃ c, s.getConnection = .ok c) ∧ ∃ e, s.getExchange = .ok e

/-- A call that begins after another has raised, and none of whose awaits raises, has established the
exchange when it has come to its end. -/
def RaisedIsRetried (acts : List Action) : Prop :=
  ∀ pre more s s', pre ++ .connect :: more <+: acts → exec step pre start = some s →
    .raised ∈ s.calls → exec step (.connect :: more) s = some s' →
    (∀ ok, .resume s.calls.length ok ∈ more → ok = true) →
    (s'.calls[s.calls.length]? = some .returned ∨ s'.calls[s.calls.length]? = some .raised) →
      ∃ e, s'.getExchange = .ok e

/-- The action makes one of the two checks while the connection is assigned and the exchange is
not. -/
def ChecksHalfway (s : Client) (a : Action) : Prop :=
  (a = .connect ∨ ∃ i ok, a = .resume i ok ∧ s.calls[i]? = some .waiting) ∧
    s.connection ≠ none ∧ s.publisherExchange = none

instance (s : Client) (a : Action) : Decidable (s.ChecksHalfway a) :=
  match a with
  | .connect =>
      decidable_of_iff (s.connection ≠ none ∧ s.publisherExchange = none) (by simp [ChecksHalfway])
  | .resume i ok =>
      decidable_of_iff (s.calls[i]? = some .waiting ∧ s.connection ≠ none ∧ s.publisherExchange = none)
        (by simp [ChecksHalfway])

variable {s s' : Client}

theorem getConnection_ok_iff : (∃ c, s.getConnection = .ok c) ↔ s.connection ≠ none := by
  unfold getConnection
  cases s.connection <;> simp

theorem getExchange_ok_iff : (∃ e, s.getExchange = .ok e) ↔ s.publisherExchange ≠ none := by
  unfold getExchange
  cases s.publisherExchange <;> simp

/-- The awaits that all calls have still before them, at most. -/
def outstanding (s : Client) : Nat := (s.calls.map Phase.outstanding).sum

/-- Some await can complete unless all calls have ended, and each await that completes, or raises, leaves
fewer to come. -/
structure Progress (s : Client) : Prop where
  goesOn : (∃ p ∈ s.calls, 0 < p.outstanding) → ∃ i, ∀ ok, ∃ s', step (.resume i ok) s = some s'
  ends : ∀ i ok s', step (.resume i ok) s = some s' → s'.outstanding < s.outstanding

/-- What holds while no check is made halfway: a call past `connect_robust` finds the connection
assigned, so does whoever finds the exchange, and no call has returned before the exchange was. -/
structure Works (s : Client) : Prop where
  past : ∀ p ∈ s.calls, p = .openingChannel ∨ p = .settingQos ∨ p = .declaring →
    s.connection ≠ none
  exchange : s.publisherExchange ≠ none → s.connection ≠ none
  returned : .returned ∈ s.calls → s.publisherExchange ≠ none

theorem works_start : start.Works where
  past := fun _ hp => absurd hp List.not_mem_nil
  exchange := fun h => absurd rfl h
  returned := fun h => absurd h List.not_mem_nil

/-- A step that takes call `i` to phase `p` and keeps what is assigned. -/
theorem Works.of_goto (h : s.Works) {i : Nat} {p : Phase} (hcalls : s'.calls = s.calls.set i p)
    (hconn : s.connection ≠ none → s'.connection ≠ none)
    (hexch : s.publisherExchange ≠ none → s'.publisherExchange ≠ none)
    (hback : s'.publisherExchange ≠ none → s'.connection ≠ none)
    (hpast : p = .openingChannel ∨ p = .settingQos ∨ p = .declaring → s'.connection ≠ none)
    (hreturned : p = .returned → s'.publisherExchange ≠ none) : s'.Works where
  past := by
    intro q hq hphase
    rw [hcalls] at hq
    rcases List.mem_or_eq_of_mem_set hq with hq | rfl
    · exact hconn (h.past q hq hphase)
    · exact hpast hphase
  exchange := hback
  returned := by
    intro hmem
    rw [hcalls] at hmem
    rcases List.mem_or_eq_of_mem_set hmem with hmem | heq
    · exact hexch (h.returned hmem)
    · exact hreturned heq.symm

/-- **The step lemma**: a step that makes no check halfway keeps the invariant. -/
theorem Works.step (h : s.Works) {a : Action} (hstep : step a s = some s')
    (hcheck : ¬ s.ChecksHalfway a) : s'.Works := by
  cases a with
  | connect =>
      obtain rfl := Option.some.inj hstep
      have hdone : s.connection ≠ none → s.publisherExchange ≠ none := fun hc he =>
        hcheck ⟨Or.inl rfl, hc, he⟩
      by_cases hc : s.connection ≠ none
      · refine ⟨?_, h.exchange, fun _ => hdone hc⟩
        exact fun p _ _ => hc
      · refine ⟨?_, h.exchange, ?_⟩
        · intro p hp hphase
          rcases List.mem_append.mp hp with hp | hp
          · exact h.past p hp hphase
          · rw [if_neg hc] at hp
            rw [List.mem_singleton.mp hp] at hphase
            simp at hphase
        · intro hmem
          rcases List.mem_append.mp hmem with hmem | hmem
          · exact h.returned hmem
          · rw [if_neg hc] at hmem
            exact absurd (List.mem_singleton.mp hmem) (by decide)
  | resume i ok =>
      obtain ⟨p, hp, hadv⟩ := Option.bind_eq_some_iff.mp hstep
      have hmem : p ∈ s.calls := List.mem_of_getElem? hp
      cases p with
      | waiting =>
          have hdone : s.connection ≠ none → s.publisherExchange ≠ none := fun hc he =>
            hcheck ⟨Or.inr ⟨i, ok, rfl, hp⟩, hc, he⟩
          simp only [advance] at hadv
          by_cases hlock : s.lock ≠ none
          · rw [if_pos hlock] at hadv
            exact absurd hadv (by simp)
          · rw [if_neg hlock] at hadv
            by_cases hc : s.connection ≠ none
            · rw [if_pos hc] at hadv
              obtain rfl := Option.some.inj hadv
              exact h.of_goto rfl id id h.exchange (fun _ => hc) fun _ => hdone hc
            · rw [if_neg hc] at hadv
              obtain rfl := Option.some.inj hadv
              exact h.of_goto rfl id id h.exchange (by simp) (by simp)
      | connecting =>
          simp only [advance] at hadv
          cases ok with
          | true =>
              obtain rfl := Option.some.inj hadv
              exact h.of_goto rfl (by simp) id (by simp) (by simp) (by simp)
          | false =>
              obtain rfl := Option.some.inj hadv
              exact h.of_goto rfl id id h.exchange (by simp) (by simp)
      | openingChannel =>
          have hc := h.past _ hmem (Or.inl rfl)
          simp only [advance] at hadv
          cases ok with
          | true =>
              obtain rfl := Option.some.inj hadv
              exact h.of_goto rfl id id h.exchange (fun _ => hc) (by simp)
          | false =>
              obtain rfl := Option.some.inj hadv
              exact h.of_goto rfl id id h.exchange (by simp) (by simp)
      | settingQos =>
          have hc := h.past _ hmem (Or.inr (Or.inl rfl))
          simp only [advance] at hadv
          cases ok with
          | true =>
              obtain rfl := Option.some.inj hadv
              exact h.of_goto rfl id id h.exchange (fun _ => hc) (by simp)
          | false =>
              obtain rfl := Option.some.inj hadv
              exact h.of_goto rfl id id h.exchange (by simp) (by simp)
      | declaring =>
          have hc := h.past _ hmem (Or.inr (Or.inr rfl))
          simp only [advance] at hadv
          cases ok with
          | true =>
              obtain rfl := Option.some.inj hadv
              exact h.of_goto rfl id (by simp) (fun _ => hc) (by simp) (by simp)
          | false =>
              obtain rfl := Option.some.inj hadv
              exact h.of_goto rfl id id h.exchange (by simp) (by simp)
      | returned => exact absurd hadv (by simp [advance])
      | raised => exact absurd hadv (by simp [advance])

/-- A check made halfway returns, and leaves the exchange unassigned. -/
theorem ChecksHalfway.returns {a : Action} (h : s.ChecksHalfway a) (hstep : step a s = some s') :
    .returned ∈ s'.calls ∧ s'.publisherExchange = none := by
  obtain ⟨hcheck, hc, he⟩ := h
  rcases hcheck with rfl | ⟨i, ok, rfl, hp⟩
  · obtain rfl := Option.some.inj hstep
    refine ⟨?_, he⟩
    simp [hc]
  · simp only [step, hp, Option.bind_some, advance] at hstep
    by_cases hlock : s.lock ≠ none
    · rw [if_pos hlock] at hstep
      exact absurd hstep (by simp)
    · rw [if_neg hlock, if_pos hc] at hstep
      obtain rfl := Option.some.inj hstep
      obtain ⟨hlt, -⟩ := List.getElem?_eq_some_iff.mp hp
      exact ⟨List.mem_set hlt _, he⟩

/-- The run lemma. -/
theorem works_of_exec {acts : List Action} (h : exec step acts start = some s)
    (hcheck : ∀ pre a s₁, pre ++ [a] <+: acts → exec step pre start = some s₁ →
      ¬ s₁.ChecksHalfway a) : s.Works := by
  induction acts using List.reverseRecOn generalizing s with
  | nil =>
      obtain rfl := Option.some.inj h
      exact works_start
  | append_singleton acts a ih =>
      obtain ⟨t, ht, hlast⟩ := exec_append_eq_some.mp h
      have hinv := ih ht fun pre b s₁ hpre => hcheck pre b s₁ (hpre.trans (List.prefix_append _ _))
      obtain ⟨s₂, hstep, hs₂⟩ := exec_cons_eq_some.mp hlast
      obtain rfl := Option.some.inj hs₂
      exact hinv.step hstep (hcheck acts a t (List.prefix_refl _) ht)

/-! ## Progress -/

/-- The lock is with the one call that is behind its second check and has not ended. -/
def Locked (s : Client) : Prop :=
  ∀ i, s.lock = some i ↔ ∃ p, s.calls[i]? = some p ∧ p.locked = true

theorem locked_start : start.Locked := by
  intro i
  simp [start]

/-- Call `i` goes from `p` to `q`; the lock is where `q` says. -/
theorem Locked.of_set (h : s.Locked) {i : Nat} {p q : Phase} (hp : s.calls[i]? = some p)
    (hcalls : s'.calls = s.calls.set i q)
    (hlock : s'.lock = if q.locked then some i else if s.lock = some i then none else s.lock)
    (hfree : q.locked = true → s.lock = none ∨ s.lock = some i) : s'.Locked := by
  obtain ⟨hlt, -⟩ := List.getElem?_eq_some_iff.mp hp
  intro j
  rw [hlock, hcalls]
  by_cases hij : i = j
  · subst hij
    rw [List.getElem?_set_self hlt]
    cases hq : q.locked
    · rw [if_neg Bool.false_ne_true]
      by_cases hself : s.lock = some i <;> simp [hq, hself]
    · simp [hq]
  · rw [List.getElem?_set_ne hij, ← h j]
    cases hq : q.locked
    · rw [if_neg Bool.false_ne_true]
      split_ifs with hself
      · simp [hself, hij]
      · exact Iff.rfl
    · rw [if_pos rfl]
      rcases hfree hq with hnone | hself
      · simp [hnone, hij]
      · simp [hself]

/-- **Locking is kept**: the lock is taken behind the second check and released at the end. -/
theorem Locked.step (h : s.Locked) {a : Action} (hstep : step a s = some s') : s'.Locked := by
  cases a with
  | connect =>
      obtain rfl := Option.some.inj hstep
      intro i
      rw [show s.lock = some i ↔ _ from h i]
      dsimp only
      by_cases hlt : i < s.calls.length
      · rw [List.getElem?_append_left hlt]
      · rw [List.getElem?_append_right (not_lt.mp hlt), List.getElem?_eq_none (not_lt.mp hlt)]
        generalize i - s.calls.length = k
        cases k <;> split_ifs <;> simp [Phase.locked]
  | resume i ok =>
      obtain ⟨p, hp, hadv⟩ := Option.bind_eq_some_iff.mp hstep
      have hheld : p.locked = true → s.lock = some i := fun hphase => (h i).mpr ⟨p, hp, hphase⟩
      cases p with
      | waiting =>
          have hnot : s.lock ≠ some i := by
            intro hself
            obtain ⟨p, hp', hphase⟩ := (h i).mp hself
            obtain rfl := Option.some.inj (hp.symm.trans hp')
            cases hphase
          simp only [advance] at hadv
          by_cases hlock : s.lock ≠ none
          · rw [if_pos hlock] at hadv
            cases hadv
          · rw [if_neg hlock] at hadv
            rw [not_not] at hlock
            split_ifs at hadv
            · obtain rfl := Option.some.inj hadv
              exact h.of_set hp (q := .returned) rfl (by simp [goto, Phase.locked, hnot]) (by simp [Phase.locked])
            · obtain rfl := Option.some.inj hadv
              exact h.of_set hp (q := .connecting) rfl (by simp [Phase.locked]) fun _ => Or.inl hlock
      | connecting =>
          have hlock := hheld rfl
          simp only [advance] at hadv
          split_ifs at hadv <;> obtain rfl := Option.some.inj hadv
          · exact h.of_set hp (q := .openingChannel) rfl (by simp [goto, Phase.locked, hlock]) fun _ => Or.inr hlock
          · exact h.of_set hp (q := .raised) rfl (by simp [leave, Phase.locked, hlock]) (by simp [Phase.locked])
      | openingChannel =>
          have hlock := hheld rfl
          obtain rfl := Option.some.inj hadv
          cases ok with
          | true => exact h.of_set hp (q := .settingQos) rfl (by simp [goto, Phase.locked, hlock]) fun _ => Or.inr hlock
          | false => exact h.of_set hp (q := .raised) rfl (by simp [leave, Phase.locked, hlock]) (by simp [Phase.locked])
      | settingQos =>
          have hlock := hheld rfl
          obtain rfl := Option.some.inj hadv
          cases ok with
          | true => exact h.of_set hp (q := .declaring) rfl (by simp [goto, Phase.locked, hlock]) fun _ => Or.inr hlock
          | false => exact h.of_set hp (q := .raised) rfl (by simp [leave, Phase.locked, hlock]) (by simp [Phase.locked])
      | declaring =>
          have hlock := hheld rfl
          simp only [advance] at hadv
          split_ifs at hadv <;> obtain rfl := Option.some.inj hadv
          · exact h.of_set hp (q := .returned) rfl (by simp [leave, Phase.locked, hlock]) (by simp [Phase.locked])
          · exact h.of_set hp (q := .raised) rfl (by simp [leave, Phase.locked, hlock]) (by simp [Phase.locked])
      | returned => exact absurd hadv (by simp [advance])
      | raised => exact absurd hadv (by simp [advance])

/-- An await takes its call to a phase with fewer awaits to come. -/
theorem advance_cases {i : Nat} {ok : Bool} {p : Phase} (h : s.advance i ok p = some s') :
    ∃ q, s'.calls = s.calls.set i q ∧ q.outstanding < p.outstanding ∧ (q = .raised → ok = false) := by
  cases p with
  | waiting =>
      simp only [advance] at h
      split_ifs at h
      · obtain rfl := Option.some.inj h
        exact ⟨.returned, rfl, by decide, by simp⟩
      · obtain rfl := Option.some.inj h
        exact ⟨.connecting, rfl, by decide, by simp⟩
  | connecting =>
      cases ok <;> obtain rfl := Option.some.inj h
      · exact ⟨.raised, rfl, by decide, fun _ => rfl⟩
      · exact ⟨.openingChannel, rfl, by decide, by simp⟩
  | openingChannel =>
      cases ok <;> obtain rfl := Option.some.inj h
      · exact ⟨.raised, rfl, by decide, fun _ => rfl⟩
      · exact ⟨.settingQos, rfl, by decide, by simp⟩
  | settingQos =>
      cases ok <;> obtain rfl := Option.some.inj h
      · exact ⟨.raised, rfl, by decide, fun _ => rfl⟩
      · exact ⟨.declaring, rfl, by decide, by simp⟩
  | declaring =>
      cases ok <;> obtain rfl := Option.some.inj h
      · exact ⟨.raised, rfl, by decide, fun _ => rfl⟩
      · exact ⟨.returned, rfl, by decide, by simp⟩
  | returned => exact absurd h (by simp [advance])
  | raised => exact absurd h (by simp [advance])

/-- Writing less at one place makes the sum less. -/
theorem sum_set_lt {l : List Phase} {i : Nat} {p q : Phase} (hp : l[i]? = some p)
    (hq : q.outstanding < p.outstanding) :
    ((l.set i q).map Phase.outstanding).sum < (l.map Phase.outstanding).sum := by
  induction l generalizing i with
  | nil => simp at hp
  | cons a l ih =>
      cases i with
      | zero =>
          obtain rfl := Option.some.inj hp
          simpa using hq
      | succ i =>
          have hrest := ih (i := i) (by simpa using hp)
          simpa using hrest

/-- **No call waits for ever.** -/
theorem Locked.progress (h : s.Locked) : s.Progress where
  goesOn := by
    rintro ⟨p, hp, hpos⟩
    cases hlock : s.lock with
    | some j =>
        -- whoever holds the lock can go on
        obtain ⟨q, hq, hphase⟩ := (h j).mp hlock
        refine ⟨j, fun ok => ?_⟩
        simp only [Client.step, hq, Option.bind_some]
        cases q with
        | connecting => cases ok <;> exact ⟨_, rfl⟩
        | openingChannel => exact ⟨_, rfl⟩
        | settingQos => exact ⟨_, rfl⟩
        | declaring => cases ok <;> exact ⟨_, rfl⟩
        | _ => cases hphase
    | none =>
        -- nobody holds it, so the call in flight waits for it
        obtain ⟨j, hj⟩ := List.mem_iff_getElem?.mp hp
        have hnot : p.locked ≠ true := by
          intro hphase
          have hheld := (h j).mpr ⟨p, hj, hphase⟩
          rw [hlock] at hheld
          cases hheld
        obtain rfl : p = .waiting := by
          cases p with
          | waiting => rfl
          | returned => exact absurd hpos (by decide)
          | raised => exact absurd hpos (by decide)
          | _ => exact absurd rfl hnot
        refine ⟨j, fun ok => ?_⟩
        simp only [Client.step, hj, Option.bind_some, advance, hlock]
        by_cases hc : s.connection ≠ none
        · exact ⟨_, by rw [if_neg (by simp), if_pos hc]⟩
        · exact ⟨_, by rw [if_neg (by simp), if_neg hc]⟩
  ends := by
    intro i ok s' hstep
    obtain ⟨p, hp, hadv⟩ := Option.bind_eq_some_iff.mp hstep
    obtain ⟨q, hcalls, hless, -⟩ := advance_cases hadv
    unfold outstanding
    rw [hcalls]
    exact sum_set_lt hp hless

/-- A call whose awaits do not raise does not raise. -/
theorem not_raised_of_exec {more : List Action} {i : Nat} (hi : i < s.calls.length)
    (hstart : s.calls[i]? ≠ some .raised) (hfaultless : ∀ ok, .resume i ok ∈ more → ok = true)
    (h : exec Client.step more s = some s') : s'.calls[i]? ≠ some .raised := by
  have hinv : i < s'.calls.length ∧ s'.calls[i]? ≠ some .raised := by
    refine exec_invariant (P := fun t : Client => i < t.calls.length ∧ t.calls[i]? ≠ some .raised)
      (fun a ha t t' ht hstep => ?_) ⟨hi, hstart⟩ h
    cases a with
    | connect =>
        obtain rfl := Option.some.inj hstep
        refine ⟨by simp; omega, ?_⟩
        dsimp only
        rw [List.getElem?_append_left ht.1]
        exact ht.2
    | resume j ok =>
        obtain ⟨p, hp, hadv⟩ := Option.bind_eq_some_iff.mp hstep
        obtain ⟨q, hcalls, -, hraised⟩ := advance_cases hadv
        rw [hcalls, List.length_set]
        refine ⟨ht.1, ?_⟩
        by_cases hji : j = i
        · subst hji
          rw [List.getElem?_set_self ht.1]
          intro hq
          have hfalse := hraised (Option.some.inj hq)
          rw [hfaultless ok ha] at hfalse
          cases hfalse
        · rw [List.getElem?_set_ne hji]
          exact ht.2
  exact hinv.2

/-- **A returned `connect` means that publishing works, and one that raised is made up for by the next,
exactly in the runs in which no call checks halfway**; and no call waits for ever. -/
theorem returned_means_publishing_iff {acts : List Action} (h : exec step acts start = some s) :
    ((ReturnedMeansPublishing acts ∧ RaisedIsRetried acts) ↔
      ∀ pre a s₁, pre ++ [a] <+: acts → exec step pre start = some s₁ → ¬ s₁.ChecksHalfway a) ∧
    ∀ pre s₁, pre <+: acts → exec step pre start = some s₁ → s₁.Progress := by
  refine ⟨⟨?_, fun hcheck => ?_⟩, fun pre s₁ _ hs₁ => ?_⟩
  · rintro ⟨hworks, -⟩ pre a s₁ hpre hs₁ hhalf
    -- the run goes on behind the check, so the check has returned
    obtain ⟨post, hacts⟩ := hpre
    rw [← hacts, exec_append_eq_some] at h
    obtain ⟨t, ht, -⟩ := h
    obtain ⟨s₂, hs₂, hlast⟩ := exec_append_eq_some.mp ht
    rw [hs₁] at hs₂
    obtain rfl := Option.some.inj hs₂
    obtain ⟨s₃, hstep, hs₃⟩ := exec_cons_eq_some.mp hlast
    obtain rfl := Option.some.inj hs₃
    obtain ⟨hreturned, hnone⟩ := hhalf.returns hstep
    have hexch := (hworks (pre ++ [a]) s₃ ⟨post, hacts⟩ ht hreturned).2
    exact getExchange_ok_iff.mp hexch hnone
  · have hworks : ReturnedMeansPublishing acts := by
      intro pre s₁ hpre hs₁ hreturned
      have hinv := works_of_exec hs₁ fun pre' a s₂ hpre' => hcheck pre' a s₂ (hpre'.trans hpre)
      have hexch := hinv.returned hreturned
      exact ⟨getConnection_ok_iff.mpr (hinv.exchange hexch), getExchange_ok_iff.mpr hexch⟩
    refine ⟨hworks, fun pre more s₁ s₂ hpre hs₁ _ hmore hfaultless hended => ?_⟩
    have hrun : exec step (pre ++ .connect :: more) start = some s₂ :=
      exec_append_eq_some.mpr ⟨s₁, hs₁, hmore⟩
    rcases hended with hreturned | hraised
    · exact (hworks _ s₂ hpre hrun (List.mem_of_getElem? hreturned)).2
    · -- a call that meets no fault has not raised
      obtain ⟨t, ht, hrest⟩ := exec_cons_eq_some.mp hmore
      obtain rfl := Option.some.inj ht
      refine absurd hraised (not_raised_of_exec (by simp) ?_ hfaultless hrest)
      dsimp only
      rw [List.getElem?_append_right (le_refl _)]
      split_ifs <;> simp
  · have hlocked : s₁.Locked :=
      exec_invariant (fun a _ t t' ht hstep => ht.step hstep) locked_start hs₁
    exact hlocked.progress

/-- The first call cannot reach the broker; the second one waits for the lock, and meets no fault. -/
def failedThenPlain : List Action :=
  [.connect, .resume 0 true, .resume 0 false, .connect, .resume 1 true, .resume 1 true, .resume 1 true,
    .resume 1 true, .resume 1 true]

theorem failedThenPlain_publishes :
    ∃ s, exec step failedThenPlain start = some s ∧ s.calls = [.raised, .returned] ∧
      ∃ e, s.getExchange = .ok e := by
  have hrun : ((exec step failedThenPlain start).map fun s => s.calls)
      = some [.raised, .returned] := by
    decide
  obtain ⟨s, hs, hcalls⟩ := Option.map_eq_some_iff.mp hrun
  have hchecks : Allowed step (fun a s => ¬ s.ChecksHalfway a) failedThenPlain start := by decide
  have hboth := (returned_means_publishing_iff hs).1.mpr hchecks.at_prefix
  have hraised : ((exec step (failedThenPlain.take 3) start).map fun s => s.calls) = some [.raised] := by
    decide
  obtain ⟨s₁, hs₁, hcalls₁⟩ := Option.map_eq_some_iff.mp hraised
  have hsplit : failedThenPlain = failedThenPlain.take 3 ++ .connect :: failedThenPlain.drop 4 := rfl
  have hlater : exec step (.connect :: failedThenPlain.drop 4) s₁ = some s := by
    rw [hsplit, exec_append_eq_some] at hs
    obtain ⟨t, ht, hrest⟩ := hs
    obtain rfl := Option.some.inj (hs₁.symm.trans ht)
    exact hrest
  refine ⟨s, hs, hcalls, hboth.2 (failedThenPlain.take 3) (failedThenPlain.drop 4) s₁ s
    (by rw [← hsplit]) hs₁ (by rw [hcalls₁]; decide) hlater ?_ (Or.inl ?_)⟩
  · rw [hcalls₁]
    decide
  · rw [hcalls₁, hcalls]
    rfl

/-- The channel of the first call raises; the second call meets no fault. -/
def faultyChannel : List Action :=
  [.connect, .resume 0 true, .resume 0 true, .resume 0 false, .connect]

/-- **The second call returns at once, and there is no exchange to publish to**, whichever half of the
property is meant. -/
theorem faultyChannel_noExchange :
    ¬ ReturnedMeansPublishing faultyChannel ∧ ¬ RaisedIsRetried faultyChannel := by
  have hrun : ((exec step faultyChannel start).map fun s => (s.calls, s.publisherExchange))
      = some ([.raised, .returned], none) := by
    decide
  obtain ⟨s, hs, heq⟩ := Option.map_eq_some_iff.mp hrun
  simp only [Prod.mk.injEq] at heq
  constructor
  · intro h
    have hexch := (h faultyChannel s (List.prefix_refl _) hs (by rw [heq.1]; decide)).2
    exact getExchange_ok_iff.mp hexch heq.2
  · intro h
    have hraised : ((exec step (faultyChannel.take 4) start).map fun s => s.calls) = some [.raised] := by
      decide
    obtain ⟨s₁, hs₁, hcalls₁⟩ := Option.map_eq_some_iff.mp hraised
    have hlater : exec step [.connect] s₁ = some s := by
      have hsplit : faultyChannel = faultyChannel.take 4 ++ [.connect] := rfl
      rw [hsplit, exec_append_eq_some] at hs
      obtain ⟨t, ht, hrest⟩ := hs
      obtain rfl := Option.some.inj (hs₁.symm.trans ht)
      exact hrest
    have hexch := h (faultyChannel.take 4) [] s₁ s (List.prefix_refl _) hs₁
      (by rw [hcalls₁]; decide) hlater (fun ok hok => absurd hok List.not_mem_nil)
      (Or.inl (by rw [hcalls₁, heq.1]; rfl))
    exact getExchange_ok_iff.mp hexch heq.2

end Client

end HighLoad.RabbitClient
