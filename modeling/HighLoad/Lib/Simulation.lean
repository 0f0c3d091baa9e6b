/-
# HighLoad.Lib.Simulation — one store in place of another

Two handlers over different states, and a relation of their states that they keep while they answer alike:
then the same programs issue the same commands under either, in every interleaving (`Pool.exec_simulated`).
The answers need only agree for commands that meet a condition in the state they are issued in.
-/
import HighLoad.Lib.Within

namespace HighLoad

variable {C : Type → Type} {ε S T α β : Type} {h : Handler C ε S} {h' : Handler C ε T}
  {A : (β : Type) → C β → S → Bool} {R : S → T → Prop}

/-- In related states the handlers answer a command that meets `A` alike, and leave related states. -/
def Handler.Simulated (h : Handler C ε S) (h' : Handler C ε T) (A : (β : Type) → C β → S → Bool)
    (R : S → T → Prop) : Prop :=
  ∀ (β : Type) (c : C β) (s : S) (t : T), A β c s = true → R s t →
    (h'.issue c t).1 = (h.issue c s).1 ∧ R (h.issue c s).2 (h'.issue c t).2

namespace Pool

/-- The thread whose turn it is issues its command. -/
theorem step_of_cmd {p : Pool C ε S α} {i : Nat} {c : C β} {next : Except ε β → Prog C ε α}
    (hi : p.threads[i]? = some (.cmd c next)) :
    step h i p = some ⟨p.threads.set i (next (h.issue c p.state).1), (h.issue c p.state).2⟩ := by
  unfold step Handler.issue
  rw [hi]
  dsimp only
  cases h β c p.state <;> rfl

/-- **The step lemma.** -/
theorem step_simulated (hsim : h.Simulated h' A R) {p p' : Pool C ε S α} {t : T} (hR : R p.state t)
    {i : Nat} (hmeets : ∀ q, p.threads[i]? = some q → q.issues A p.state = true)
    (hstep : step h i p = some p') :
    ∃ t', step h' i ⟨p.threads, t⟩ = some ⟨p'.threads, t'⟩ ∧ R p'.state t' := by
  obtain ⟨β, c, next, hi, rfl⟩ := step_issue hstep
  obtain ⟨hanswer, hrelated⟩ := hsim β c p.state t (hmeets _ hi) hR
  refine ⟨(h'.issue c t).2, ?_, hrelated⟩
  rw [step_of_cmd (p := ⟨p.threads, t⟩) hi, hanswer]

/-- **The run lemma.** A run over one store is a run over the other: the threads are the same at every
point, and the states are related. -/
theorem exec_simulated (hsim : h.Simulated h' A R) {schedule : List Nat} {p p' : Pool C ε S α} {t : T}
    (hR : R p.state t) (hmeets : Meets h A p schedule) (hrun : exec (step h) schedule p = some p') :
    ∃ t', exec (step h') schedule ⟨p.threads, t⟩ = some ⟨p'.threads, t'⟩ ∧ R p'.state t' := by
  induction schedule generalizing p t with
  | nil =>
      obtain rfl : p = p' := Option.some.inj hrun
      exact ⟨t, rfl, hR⟩
  | cons i schedule ih =>
      obtain ⟨p₁, hp₁, hrest⟩ := exec_cons_eq_some.mp hrun
      obtain ⟨hfirst, hlater⟩ := hmeets.cons
      obtain ⟨t₁, ht₁, hR₁⟩ := step_simulated hsim hR hfirst hp₁
      obtain ⟨t', ht', hR'⟩ := ih hR₁ (hlater p₁ hp₁) hrest
      exact ⟨t', exec_cons_eq_some.mpr ⟨_, ht₁, ht'⟩, hR'⟩

end Pool

end HighLoad
