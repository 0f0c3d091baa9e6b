/-
# HighLoad.Lib.Faults — programs whose commands fail, and what their executions show

`Prog.run` knows commands that raise without a trace. Here a command may also take effect and raise
nevertheless, or fail because something else does: `perform` runs a program against a `Service`, and
`Performs` relates a program to the replies it could get from anyone, so that what holds of every such
history holds under any interleaving and any faults.

`Discipline` is a logic for the order in which a program may issue its commands: some need a fact
that the replies to others establish (`Heeds`, with a rule for each construct).
-/
import HighLoad.Lib.Prog
import Mathlib.Order.Basic
import Mathlib.Data.Set.Basic

namespace HighLoad.Prog

variable {C : Type → Type} {ε α β κ : Type} {S : Type*}

/-- `try: p except Exception as e: handler(e)`. -/
def tryExcept : Prog C ε α → (ε → Prog C ε α) → Prog C ε α
  | ret a, _ => ret a
  | raise e, handler => handler e
  | cmd c next, handler => cmd c fun r => (next r).tryExcept handler

/-! ## Services -/

/-- The meaning of commands that may change the state and raise. -/
def Service (C : Type → Type) (ε : Type) (S : Type*) : Type _ :=
  (β : Type) → C β → S → Except ε β × S

/-- Run a program alone against a service. -/
def perform (h : Service C ε S) : Prog C ε α → S → Except ε α × S
  | ret a, s => (.ok a, s)
  | raise e, s => (.error e, s)
  | cmd c next, s => (next (h _ c s).1).perform h (h _ c s).2

variable {h : Service C ε S}

@[simp] theorem perform_pure (a : α) (s : S) : (pure a : Prog C ε α).perform h s = (.ok a, s) := rfl

@[simp] theorem perform_raise (e : ε) (s : S) :
    (raise e : Prog C ε α).perform h s = (.error e, s) := rfl

theorem perform_call (c : C β) (s : S) : (call c : Prog C ε β).perform h s = h β c s := by
  unfold call
  rw [perform]
  cases hc : h β c s with
  | mk r s' => cases r <;> rfl

/-- What comes after a program continues from its outcome. -/
def resume (h : Service C ε S) (k : α → Prog C ε β) : Except ε α × S → Except ε β × S
  | (.ok a, s) => (k a).perform h s
  | (.error e, s) => (.error e, s)

/-- **Sequencing runs the first program, then the second from where it ended.** -/
theorem perform_bind (p : Prog C ε α) (k : α → Prog C ε β) (s : S) :
    (p >>= k).perform h s = resume h k (p.perform h s) := by
  show (p.bind k).perform h s = resume h k (p.perform h s)
  induction p generalizing s with
  | ret a => rfl
  | raise e => rfl
  | cmd c next ih => exact ih _ _

theorem perform_bind_of_ok {p : Prog C ε α} {k : α → Prog C ε β} {s s' : S} {a : α}
    (hp : p.perform h s = (.ok a, s')) : (p >>= k).perform h s = (k a).perform h s' := by
  rw [perform_bind, hp]
  rfl

theorem perform_bind_of_error {p : Prog C ε α} {k : α → Prog C ε β} {s s' : S} {e : ε}
    (hp : p.perform h s = (.error e, s')) : (p >>= k).perform h s = (.error e, s') := by
  rw [perform_bind, hp]
  rfl

theorem perform_tryExcept (p : Prog C ε α) (handler : ε → Prog C ε α) (s : S) :
    (p.tryExcept handler).perform h s = match p.perform h s with
      | (.ok a, s') => (.ok a, s')
      | (.error e, s') => (handler e).perform h s' := by
  induction p generalizing s with
  | ret a => rfl
  | raise e => rfl
  | cmd c next ih => exact ih _ _

theorem perform_tryExcept_of_ok {p : Prog C ε α} {handler : ε → Prog C ε α} {s s' : S} {a : α}
    (hp : p.perform h s = (.ok a, s')) : (p.tryExcept handler).perform h s = (.ok a, s') := by
  rw [perform_tryExcept, hp]

theorem perform_tryExcept_of_error {p : Prog C ε α} {handler : ε → Prog C ε α} {s s' : S} {e : ε}
    (hp : p.perform h s = (.error e, s')) :
    (p.tryExcept handler).perform h s = (handler e).perform h s' := by
  rw [perform_tryExcept, hp]

/-- A `finally` block that returns leaves the outcome of the program as it was. -/
theorem perform_tryFinally {fin : Prog C ε Unit} {g : S → S}
    (hfin : ∀ s, fin.perform h s = (.ok (), g s)) (p : Prog C ε α) (s : S) :
    (p.tryFinally fin).perform h s = ((p.perform h s).1, g (p.perform h s).2) := by
  induction p generalizing s with
  | ret a =>
      show (fin >>= fun _ => ret a).perform h s = _
      rw [perform_bind_of_ok (hfin s)]
      rfl
  | raise e =>
      show (fin >>= fun _ => raise e).perform h s = _
      rw [perform_bind_of_ok (hfin s)]
      rfl
  | cmd c next ih => exact ih _ _

/-! ## Histories -/

/-- A command and the reply it got. -/
structure Reply (C : Type → Type) (ε : Type) : Type 1 where
  {β : Type}
  command : C β
  reply : Except ε β

/-- The program, given these replies, ends in this way. -/
inductive Performs : Prog C ε α → List (Reply C ε) → Except ε α → Prop
  | ret (a : α) : Performs (.ret a) [] (.ok a)
  | raise (e : ε) : Performs (.raise e) [] (.error e)
  | cmd {β : Type} (c : C β) (next : Except ε β → Prog C ε α) (r : Except ε β)
      {replies : List (Reply C ε)} {outcome : Except ε α}
      (rest : Performs (next r) replies outcome) :
      Performs (.cmd c next) (⟨c, r⟩ :: replies) outcome

theorem performs_call_ok {c : C β} {replies : List (Reply C ε)} {b : β}
    (h : Performs (call c) replies (.ok b)) : replies = [⟨c, .ok b⟩] := by
  unfold call at h
  cases h with
  | cmd _ _ r rest =>
      cases r with
      | ok b' =>
          cases rest
          rfl
      | error e => cases rest

/-- A sequence that returned: both programs did. -/
theorem performs_bind_ok {p : Prog C ε α} {k : α → Prog C ε β} {replies : List (Reply C ε)} {b : β}
    (h : Performs (p >>= k) replies (.ok b)) :
    ∃ first second a, replies = first ++ second ∧ Performs p first (.ok a) ∧
      Performs (k a) second (.ok b) := by
  change Performs (p.bind k) replies (.ok b) at h
  induction p generalizing replies with
  | ret a => exact ⟨[], replies, a, rfl, .ret a, h⟩
  | raise e => cases h
  | cmd c next ih =>
      cases h with
      | cmd _ _ r rest =>
          obtain ⟨first, second, a, rfl, hfirst, hsecond⟩ := ih r rest
          exact ⟨_, second, a, rfl, .cmd c next r hfirst, hsecond⟩

/-- **A pipeline of writes that returned carried out every one of them.** -/
theorem performs_pipeline_ok {cs : List (C Unit)} {replies : List (Reply C ε)} {bs : List Unit}
    (h : Performs (pipeline cs) replies (.ok bs)) :
    replies = cs.map fun c => ⟨c, .ok ()⟩ := by
  induction cs generalizing replies bs with
  | nil =>
      cases h
      rfl
  | cons c cs ih =>
      obtain ⟨first, second, a, rfl, hfirst, hsecond⟩ := performs_bind_ok (k := fun b =>
        (pipeline cs).bind fun bs => ret (b :: bs)) h
      obtain ⟨third, fourth, a', rfl, hthird, hfourth⟩ := performs_bind_ok (k := fun bs =>
        ret (a :: bs)) hsecond
      cases hfourth
      rw [performs_call_ok hfirst, ih hthird, List.append_nil]
      rfl

/-! ## Disciplines -/

/-- Which facts a command needs, and which its reply establishes. -/
structure Discipline (C : Type → Type) (ε κ : Type) : Type 1 where
  needs : {β : Type} → C β → Set κ
  learns : {β : Type} → C β → Except ε β → Set κ

/-- From the facts `H` on, the program issues no command before its needs are met. -/
def Heeds (d : Discipline C ε κ) : Prog C ε α → Set κ → Prop
  | ret _, _ => True
  | raise _, _ => True
  | cmd c next, H => d.needs c ⊆ H ∧ ∀ r, Heeds d (next r) (H ∪ d.learns c r)

variable {d : Discipline C ε κ} {H H' : Set κ}

theorem Heeds.mono {p : Prog C ε α} (hp : Heeds d p H) (hH : H ⊆ H') : Heeds d p H' := by
  induction p generalizing H H' with
  | ret a => trivial
  | raise e => trivial
  | cmd c next ih =>
      exact ⟨hp.1.trans hH, fun r => ih r (hp.2 r) (Set.union_subset_union_left _ hH)⟩

theorem heeds_call {c : C β} (h : d.needs c ⊆ H) : Heeds d (call c) H :=
  ⟨h, fun r => by cases r <;> trivial⟩

theorem heeds_bind {p : Prog C ε α} {k : α → Prog C ε β} (hp : Heeds d p H)
    (hk : ∀ a, Heeds d (k a) H) : Heeds d (p >>= k) H := by
  show Heeds d (p.bind k) H
  induction p generalizing H with
  | ret a => exact hk a
  | raise e => trivial
  | cmd c next ih =>
      exact ⟨hp.1, fun r => ih r (hp.2 r) fun a => (hk a).mono Set.subset_union_left⟩

theorem heeds_tryExcept {p : Prog C ε α} {handler : ε → Prog C ε α} (hp : Heeds d p H)
    (hh : ∀ e, Heeds d (handler e) H) : Heeds d (p.tryExcept handler) H := by
  induction p generalizing H with
  | ret a => trivial
  | raise e => exact hh e
  | cmd c next ih =>
      exact ⟨hp.1, fun r => ih r (hp.2 r) fun e => (hh e).mono Set.subset_union_left⟩

/-- After a command that returned, a program may use what its reply establishes. -/
theorem heeds_call_bind {c : C β} {k : β → Prog C ε α} (hc : d.needs c ⊆ H)
    (hk : ∀ b, Heeds d (k b) (H ∪ d.learns c (.ok b))) : Heeds d (call c >>= k) H := by
  refine ⟨hc, fun r => ?_⟩
  cases r with
  | ok b => exact hk b
  | error e => trivial

end HighLoad.Prog
