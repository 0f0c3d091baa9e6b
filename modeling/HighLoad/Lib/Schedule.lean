/-
# HighLoad.Lib.Schedule — runs of a guarded step function

A system is a step function `step : A → S → Option S`: the actions an environment may choose and,
for each, the next state or `none` when the action is not enabled. A schedule is a list of actions,
`exec` runs it, and everything said about "every interleaving" is said about every schedule.

`exec_invariant` is the rule all safety results go through: what the start state satisfies and each
step of the schedule preserves holds where the schedule ends.
-/
import Mathlib.Data.List.Basic

namespace HighLoad

/-- The state after a schedule; `none` when some action of it was not enabled. -/
def exec {A S : Type*} (step : A → S → Option S) : List A → S → Option S
  | [], s => some s
  | a :: as, s => (step a s).bind (exec step as)

section

variable {A S : Type*} {step : A → S → Option S}

@[simp] theorem exec_nil (s : S) : exec step [] s = some s := rfl

theorem exec_cons_eq_some {a : A} {as : List A} {s s' : S} :
    exec step (a :: as) s = some s' ↔ ∃ t, step a s = some t ∧ exec step as t = some s' := by
  simp [exec, Option.bind_eq_some_iff]

theorem exec_append_eq_some {as bs : List A} {s s' : S} :
    exec step (as ++ bs) s = some s' ↔ ∃ t, exec step as s = some t ∧ exec step bs t = some s' := by
  induction as generalizing s with
  | nil => simp
  | cons a as ih =>
      simp only [List.cons_append, exec_cons_eq_some]
      constructor
      · rintro ⟨u, hu, hrest⟩
        obtain ⟨t, ht, hbs⟩ := ih.mp hrest
        exact ⟨t, ⟨u, hu, ht⟩, hbs⟩
      · rintro ⟨t, ⟨u, hu, ht⟩, hbs⟩
        exact ⟨u, hu, ih.mpr ⟨t, ht, hbs⟩⟩

/-- **The invariant rule.** A property of the start state that every step of the schedule preserves
holds of the state the schedule ends in. -/
theorem exec_invariant {P : S → Prop} {as : List A} {s s' : S}
    (hstep : ∀ a ∈ as, ∀ t t', P t → step a t = some t' → P t')
    (hs : P s) (h : exec step as s = some s') : P s' := by
  induction as generalizing s with
  | nil =>
      obtain rfl : s = s' := Option.some.inj h
      exact hs
  | cons a as ih =>
      obtain ⟨t, ht, hrest⟩ := exec_cons_eq_some.mp h
      exact ih (fun b hb => hstep b (List.mem_cons_of_mem a hb))
        (hstep a List.mem_cons_self s t hs ht) hrest

/-- Every action of the schedule is taken in a state that allows it. -/
def Allowed (step : A → S → Option S) (P : A → S → Prop) : List A → S → Prop
  | [], _ => True
  | a :: as, s =>
      P a s ∧
        match step a s with
        | some t => Allowed step P as t
        | none => True

instance decidableAllowed (P : A → S → Prop) [∀ a s, Decidable (P a s)] :
    ∀ as s, Decidable (Allowed step P as s)
  | [], _ => isTrue trivial
  | a :: as, s =>
      have : Decidable (match step a s with
          | some t => Allowed step P as t
          | none => True) :=
        match step a s with
        | some t => decidableAllowed P as t
        | none => isTrue trivial
      inferInstanceAs (Decidable (_ ∧ _))

/-- What is allowed at every step of a run is what is allowed behind each of its prefixes. -/
theorem Allowed.at_prefix {P : A → S → Prop} {as : List A} {s : S} (hall : Allowed step P as s) :
    ∀ pre a t, pre ++ [a] <+: as → exec step pre s = some t → P a t := by
  induction as generalizing s with
  | nil => exact fun pre a t hpre => absurd (List.prefix_nil.mp hpre) (by simp)
  | cons b as ih =>
      intro pre a t hpre hrun
      cases pre with
      | nil =>
          obtain ⟨rfl, -⟩ := List.cons_prefix_cons.mp hpre
          obtain rfl := Option.some.inj hrun
          exact hall.1
      | cons c pre =>
          obtain ⟨rfl, hrest⟩ := List.cons_prefix_cons.mp hpre
          obtain ⟨u, hu, hrun'⟩ := exec_cons_eq_some.mp hrun
          obtain ⟨-, hlater⟩ := hall
          rw [hu] at hlater
          exact ih hlater pre a t hrest hrun'

/-- The invariant rule for schedules whose actions are all allowed. -/
theorem Allowed.invariant {P : A → S → Prop} {I : S → Prop} {as : List A} {s s' : S}
    (hall : Allowed step P as s) (hstep : ∀ a t t', I t → P a t → step a t = some t' → I t')
    (hs : I s) (h : exec step as s = some s') : I s' := by
  induction as generalizing s with
  | nil =>
      obtain rfl : s = s' := Option.some.inj h
      exact hs
  | cons a as ih =>
      obtain ⟨t, ht, hrest⟩ := exec_cons_eq_some.mp h
      obtain ⟨hnow, hlater⟩ := hall
      rw [ht] at hlater
      exact ih hlater (hstep a s t hs hnow ht) hrest

end

end HighLoad
