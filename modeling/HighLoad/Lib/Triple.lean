/-
# HighLoad.Lib.Triple — pre- and postconditions of programs whose commands fail

A program that runs alone against a service either returns or raises. `Triple` has a postcondition for
each of the two; one rule for each construct takes a triple of a program from those of its parts.
-/
import HighLoad.Lib.Faults

namespace HighLoad.Prog

variable {C : Type → Type} {ε α β : Type} {S : Type*} {h : Service C ε S}

/-- From a state in `P` the program returns with `Q` or raises with `E`. -/
def Triple (h : Service C ε S) (P : S → Prop) (p : Prog C ε α) (Q : α → S → Prop)
    (E : ε → S → Prop) : Prop :=
  ∀ s, P s → (∃ a s', p.perform h s = (.ok a, s') ∧ Q a s') ∨
    ∃ e s', p.perform h s = (.error e, s') ∧ E e s'

variable {P P' : S → Prop} {Q Q' : α → S → Prop} {R : β → S → Prop} {E E' : ε → S → Prop}

theorem Triple.of_pre {p : Prog C ε α} (hp : Triple h P p Q E) (hpre : ∀ s, P' s → P s) :
    Triple h P' p Q E := fun s hs => hp s (hpre s hs)

theorem Triple.imp_ok {p : Prog C ε α} (hp : Triple h P p Q E) (hok : ∀ a s, Q a s → Q' a s) :
    Triple h P p Q' E := by
  intro s hs
  rcases hp s hs with ⟨a, s', hrun, hq⟩ | herror
  · exact Or.inl ⟨a, s', hrun, hok a s' hq⟩
  · exact Or.inr herror

theorem Triple.imp_error {p : Prog C ε α} (hp : Triple h P p Q E) (herr : ∀ e s, E e s → E' e s) :
    Triple h P p Q E' := by
  intro s hs
  rcases hp s hs with hreturn | ⟨e, s', hrun, he⟩
  · exact Or.inl hreturn
  · exact Or.inr ⟨e, s', hrun, herr e s' he⟩

theorem triple_exists {ι : Type*} {P : ι → S → Prop} {p : Prog C ε α}
    (hp : ∀ i, Triple h (P i) p Q E) : Triple h (fun s => ∃ i, P i s) p Q E := by
  rintro s ⟨i, hs⟩
  exact hp i s hs

theorem triple_and {φ : Prop} {p : Prog C ε α} (hp : φ → Triple h P p Q E) :
    Triple h (fun s => φ ∧ P s) p Q E := fun s hs => hp hs.1 s hs.2

theorem triple_pure {a : α} (ha : ∀ s, P s → Q a s) : Triple h P (pure a) Q E := fun s hs =>
  Or.inl ⟨a, s, rfl, ha s hs⟩

theorem triple_raise {e : ε} (he : ∀ s, P s → E e s) : Triple h P (raise e : Prog C ε α) Q E :=
  fun s hs => Or.inr ⟨e, s, rfl, he s hs⟩

theorem triple_call {c : C α} (hok : ∀ s a s', P s → h α c s = (.ok a, s') → Q a s')
    (herr : ∀ s e s', P s → h α c s = (.error e, s') → E e s') : Triple h P (call c) Q E := by
  intro s hs
  rw [perform_call]
  cases hc : h α c s with
  | mk r s' =>
      cases r with
      | ok a => exact Or.inl ⟨a, s', rfl, hok s a s' hs hc⟩
      | error e => exact Or.inr ⟨e, s', rfl, herr s e s' hs hc⟩

/-- Sequencing: what the first program returns with is where the second begins. -/
theorem Triple.bind {p : Prog C ε β} {k : β → Prog C ε α} (hp : Triple h P p R E)
    (hk : ∀ b, Triple h (R b) (k b) Q E) : Triple h P (p >>= k) Q E := by
  intro s hs
  rcases hp s hs with ⟨b, s', hrun, hr⟩ | ⟨e, s', hrun, he⟩
  · rw [perform_bind_of_ok hrun]
    exact hk b s' hr
  · rw [perform_bind_of_error hrun]
    exact Or.inr ⟨e, s', rfl, he⟩

/-- `try: p except Exception as e: handler(e)`. -/
theorem Triple.tryExcept {p : Prog C ε α} {handler : ε → Prog C ε α} (hp : Triple h P p Q E')
    (hhandler : ∀ e, Triple h (E' e) (handler e) Q E) : Triple h P (p.tryExcept handler) Q E := by
  intro s hs
  rcases hp s hs with ⟨a, s', hrun, hq⟩ | ⟨e, s', hrun, he⟩
  · exact Or.inl ⟨a, s', perform_tryExcept_of_ok hrun, hq⟩
  · rw [perform_tryExcept_of_error hrun]
    exact hhandler e s' he

theorem perform_tryFinally_bind (p : Prog C ε α) (fin : Prog C ε Unit) (s : S) :
    (p.tryFinally fin).perform h s = match p.perform h s with
      | (.ok a, s') => (fin >>= fun _ => pure a).perform h s'
      | (.error e, s') => (fin >>= fun _ => raise e).perform h s' := by
  induction p generalizing s with
  | ret a => rfl
  | raise e => rfl
  | cmd c next ih => exact ih _ _

/-- `try: p finally: fin`: a `fin` that raises hides how `p` ended. -/
theorem Triple.tryFinally {p : Prog C ε α} {fin : Prog C ε Unit} (hp : Triple h P p Q' E')
    (hok : ∀ a, Triple h (Q' a) fin (fun _ => Q a) E)
    (herr : ∀ e, Triple h (E' e) fin (fun _ => E e) E) : Triple h P (p.tryFinally fin) Q E := by
  intro s hs
  rw [perform_tryFinally_bind]
  rcases hp s hs with ⟨a, s', hrun, hq⟩ | ⟨e, s', hrun, he⟩
  · rw [hrun]
    exact (hok a).bind (fun _ => triple_pure fun _ ht => ht) s' hq
  · rw [hrun]
    exact (herr e).bind (fun _ => triple_raise fun _ ht => ht) s' he

end HighLoad.Prog
