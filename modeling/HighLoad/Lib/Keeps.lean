/-
# HighLoad.Lib.Keeps — an invariant that every command of a program keeps

`p.Keeps h I Q`: each command of `p`, issued in any state in `I`, leads to a state in `I`, and what `p`
returns satisfies `Q`. The replies are those of states in `I`, so what `I` says about the state can be
said about them, too. Threads that keep `I` keep it together (`Pool.keeps`), however they interleave.
-/
import HighLoad.Lib.Within

namespace HighLoad

namespace Prog

variable {C : Type → Type} {ε S α β : Type} {h : Handler C ε S} {I : S → Prop}

/-- The commands keep `I`, and the answer satisfies `Q`. -/
def Keeps (h : Handler C ε S) (I : S → Prop) (Q : α → Prop) : Prog C ε α → Prop
  | ret a => Q a
  | raise _ => True
  | cmd c next => ∀ s, I s → I (h.issue c s).2 ∧ Keeps h I Q (next (h.issue c s).1)

variable {Q Q' : α → Prop} {R : β → Prop}

theorem keeps_pure {a : α} (ha : Q a) : (pure a : Prog C ε α).Keeps h I Q := ha

theorem keeps_raise (e : ε) : (raise e : Prog C ε α).Keeps h I Q := trivial

theorem keeps_call {c : C α} (hstate : ∀ s, I s → I (h.issue c s).2)
    (hreply : ∀ s, I s → ∀ a, (h.issue c s).1 = .ok a → Q a) : (call c : Prog C ε α).Keeps h I Q := by
  intro s hs
  refine ⟨hstate s hs, ?_⟩
  cases hr : (h.issue c s).1 with
  | ok a => exact hreply s hs a hr
  | error e => trivial

theorem Keeps.mono {p : Prog C ε α} (hp : p.Keeps h I Q) (hQ : ∀ a, Q a → Q' a) :
    p.Keeps h I Q' := by
  induction p with
  | ret a => exact hQ a hp
  | raise e => trivial
  | cmd c next ih => exact fun s hs => ⟨(hp s hs).1, ih _ (hp s hs).2⟩

/-- **Sequencing.** -/
theorem Keeps.bind {p : Prog C ε β} {k : β → Prog C ε α} (hp : p.Keeps h I R)
    (hk : ∀ b, R b → (k b).Keeps h I Q) : (p >>= k).Keeps h I Q := by
  show (p.bind k).Keeps h I Q
  induction p with
  | ret b => exact hk b hp
  | raise e => trivial
  | cmd c next ih => exact fun s hs => ⟨(hp s hs).1, ih _ (hp s hs).2⟩

/-- A pipeline: each reply is as that of its command should be. -/
theorem keeps_pipeline {cs : List (C α)} {P : C α → α → Prop}
    (hcs : ∀ c ∈ cs, (call c : Prog C ε α).Keeps h I (P c)) :
    (pipeline cs : Prog C ε (List α)).Keeps h I (List.Forall₂ P cs) := by
  induction cs with
  | nil => exact keeps_pure List.Forall₂.nil
  | cons c cs ih =>
      refine (hcs c List.mem_cons_self).bind fun a ha => ?_
      refine (ih fun d hd => hcs d (List.mem_cons_of_mem c hd)).bind fun as has => ?_
      exact keeps_pure (List.Forall₂.cons ha has)

theorem Keeps.tryFinally {p : Prog C ε α} {fin : Prog C ε Unit} (hp : p.Keeps h I Q)
    (hfin : fin.Keeps h I fun _ => True) : (p.tryFinally fin).Keeps h I Q := by
  induction p with
  | ret a => exact hfin.bind fun _ _ => hp
  | raise e => exact hfin.bind fun _ _ => keeps_raise e
  | cmd c next ih => exact fun s hs => ⟨(hp s hs).1, ih _ (hp s hs).2⟩

end Prog

open Prog

variable {C : Type → Type} {ε S α : Type} {h : Handler C ε S} {I : S → Prop}

/-- **Threads that keep the invariant keep it together**, and each answer is as that of its thread should
be. -/
theorem Pool.keeps_each {Q : Nat → α → Prop} {p p' : Pool C ε S α} {schedule : List Nat}
    (hI : I p.state) (hthreads : ∀ i (q : Prog C ε α), p.threads[i]? = some q → q.Keeps h I (Q i))
    (hrun : exec (Pool.step h) schedule p = some p') :
    I p'.state ∧ ∀ i a, p'.outcome i = some (.ok a) → Q i a := by
  suffices hinv : I p'.state ∧ ∀ i (q : Prog C ε α), p'.threads[i]? = some q → q.Keeps h I (Q i) by
    refine ⟨hinv.1, fun i a ha => ?_⟩
    obtain ⟨q, hq, hout⟩ := Option.bind_eq_some_iff.mp ha
    have hkeeps := hinv.2 i q hq
    cases q with
    | ret b =>
        obtain rfl := Except.ok.inj (Option.some.inj hout)
        exact hkeeps
    | raise e => cases Option.some.inj hout
    | cmd c next => cases hout
  induction schedule generalizing p with
  | nil =>
      obtain rfl : p = p' := Option.some.inj hrun
      exact ⟨hI, hthreads⟩
  | cons i schedule ih =>
      obtain ⟨p₁, hp₁, hrest⟩ := exec_cons_eq_some.mp hrun
      obtain ⟨β, c, next, hi, rfl⟩ := Pool.step_issue hp₁
      obtain ⟨hstate, hnext⟩ := hthreads i _ hi p.state hI
      refine ih hstate (fun j q hq => ?_) hrest
      by_cases hji : i = j
      · subst hji
        have hlt := (List.getElem?_eq_some_iff.mp hi).1
        have hset : (p.threads.set i (next (h.issue c p.state).1))[i]? = some q := hq
        rw [List.getElem?_set_self hlt] at hset
        obtain rfl := Option.some.inj hset
        exact hnext
      · have hset : (p.threads.set i (next (h.issue c p.state).1))[j]? = some q := hq
        rw [List.getElem?_set_ne hji] at hset
        exact hthreads j q hset

/-- The same with one condition for all answers. -/
theorem Pool.keeps {Q : α → Prop} {p p' : Pool C ε S α} {schedule : List Nat} (hI : I p.state)
    (hthreads : ∀ q ∈ p.threads, q.Keeps h I Q) (hrun : exec (Pool.step h) schedule p = some p') :
    I p'.state ∧ ∀ i a, p'.outcome i = some (.ok a) → Q a :=
  Pool.keeps_each (Q := fun _ => Q) hI (fun _ q hq => hthreads q (List.mem_of_getElem? hq)) hrun

end HighLoad
