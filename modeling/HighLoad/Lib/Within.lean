/-
# HighLoad.Lib.Within — the commands a program issues and how it ends

`p.Within h P Q`: every command that `p` issues under the handler satisfies `P`, whatever the other
programs do to the state in between, and every outcome satisfies `Q`. The rules follow the constructs of
`Prog`; a program that always returns (`Returns`) can be followed by another without a case for its
exceptions. With `P` about one command at a time and `Q` about the outcome, what a whole program cannot
do is read off its commands.
-/
import HighLoad.Lib.Interleave

namespace HighLoad

variable {C : Type → Type} {ε S α β : Type}

/-- The reply of a command, or its exception, and the state after it. -/
def Handler.issue (h : Handler C ε S) (c : C β) (s : S) : Except ε β × S :=
  match h β c s with
  | .ok r => (.ok r.1, r.2)
  | .error e => (.error e, s)

theorem Handler.issue_of_ok {h : Handler C ε S} {c : C β} {s s' : S} {b : β}
    (hc : h β c s = .ok (b, s')) : h.issue c s = (.ok b, s') := by
  unfold Handler.issue
  rw [hc]

theorem Handler.issue_of_error {h : Handler C ε S} {c : C β} {s : S} {e : ε}
    (hc : h β c s = .error e) : h.issue c s = (.error e, s) := by
  unfold Handler.issue
  rw [hc]

/-- The command raises in no state. -/
def Handler.Total (h : Handler C ε S) (c : C β) : Prop := ∀ s, ∃ b, (h.issue c s).1 = .ok b

/-- A step issues the next command of its thread. -/
theorem Pool.step_issue {h : Handler C ε S} {p p' : Pool C ε S α} {i : Nat}
    (hstep : Pool.step h i p = some p') :
    ∃ (β : Type) (c : C β) (next : Except ε β → Prog C ε α), p.threads[i]? = some (.cmd c next) ∧
      p' = ⟨p.threads.set i (next (h.issue c p.state).1), (h.issue c p.state).2⟩ := by
  obtain ⟨β, c, next, hi, ⟨b, s', hb, rfl⟩ | ⟨e, he, rfl⟩⟩ := step_cases hstep
  · exact ⟨β, c, next, hi, by rw [Handler.issue_of_ok hb]⟩
  · exact ⟨β, c, next, hi, by rw [Handler.issue_of_error he]⟩

/-- No thread comes or goes. -/
theorem Pool.length_threads {h : Handler C ε S} {schedule : List Nat} {p p' : Pool C ε S α}
    (hrun : exec (Pool.step h) schedule p = some p') : p'.threads.length = p.threads.length := by
  induction schedule generalizing p with
  | nil =>
      obtain rfl : p = p' := Option.some.inj hrun
      rfl
  | cons i schedule ih =>
      obtain ⟨p₁, hp₁, hrest⟩ := exec_cons_eq_some.mp hrun
      obtain ⟨β, c, next, -, rfl⟩ := Pool.step_issue hp₁
      rw [ih hrest, List.length_set]

namespace Prog

/-- The program has returned. -/
def Returns (r : Except ε α) : Prop := ∃ a, r = .ok a

/-- The commands satisfy `P`, and the outcome satisfies `Q`. -/
def Within (h : Handler C ε S) (P : (β : Type) → C β → Prop) (Q : Except ε α → Prop) :
    Prog C ε α → Prop
  | ret a => Q (.ok a)
  | raise e => Q (.error e)
  | cmd c next => P _ c ∧ ∀ s, Within h P Q (next (h.issue c s).1)

variable {h : Handler C ε S} {P P' : (β : Type) → C β → Prop} {Q Q' : Except ε α → Prop}

theorem run_issue (c : C β) (next : Except ε β → Prog C ε α) (s : S) :
    (cmd c next).run h s = (next (h.issue c s).1).run h (h.issue c s).2 := by
  simp only [run, Handler.issue]
  cases h β c s <;> rfl

theorem Within.mono (hP : ∀ β c, P β c → P' β c) (hQ : ∀ r, Q r → Q' r) {p : Prog C ε α}
    (hp : p.Within h P Q) : p.Within h P' Q' := by
  induction p with
  | ret a => exact hQ _ hp
  | raise e => exact hQ _ hp
  | cmd c next ih => exact ⟨hP _ c hp.1, fun s => ih _ (hp.2 s)⟩

/-- The outcome no longer matters. -/
theorem Within.forget {p : Prog C ε α} (hp : p.Within h P Q) : p.Within h P fun _ => True :=
  hp.mono (fun _ _ hc => hc) fun _ _ => trivial

/-- **Sequencing.** -/
theorem Within.bind {Q' : Except ε β → Prop} {p : Prog C ε α} {k : α → Prog C ε β}
    (hp : p.Within h P Q) (hk : ∀ a, Q (.ok a) → (k a).Within h P Q')
    (herror : ∀ e, Q (.error e) → Q' (.error e)) : (p >>= k).Within h P Q' := by
  show (p.bind k).Within h P Q'
  induction p with
  | ret a => exact hk a hp
  | raise e => exact herror e hp
  | cmd c next ih => exact ⟨hp.1, fun s => ih _ (hp.2 s)⟩

/-- A program that returns, then another. -/
theorem Within.then {Q' : Except ε β → Prop} {p : Prog C ε α} {k : α → Prog C ε β}
    (hp : p.Within h P Returns) (hk : ∀ a, (k a).Within h P Q') : (p >>= k).Within h P Q' := by
  refine hp.bind (fun a _ => hk a) ?_
  rintro e ⟨a, ha⟩
  cases ha

/-- A program, then another, whatever the outcomes. -/
theorem Within.andThen {p : Prog C ε α} {k : α → Prog C ε β} (hp : p.Within h P fun _ => True)
    (hk : ∀ a, (k a).Within h P fun _ => True) : (p >>= k).Within h P fun _ => True :=
  hp.bind (fun a _ => hk a) fun _ _ => trivial

theorem within_pure (a : α) : (pure a : Prog C ε α).Within h P Returns := ⟨a, rfl⟩

theorem within_call {c : C α} (hP : P α c) (hc : h.Total c) :
    (call c : Prog C ε α).Within h P Returns := by
  refine ⟨hP, fun s => ?_⟩
  obtain ⟨b, hb⟩ := hc s
  rw [hb]
  exact ⟨b, rfl⟩

/-- A command that may raise. -/
theorem within_attempt {c : C α} (hP : P α c) :
    (call c : Prog C ε α).Within h P fun _ => True := by
  refine ⟨hP, fun s => ?_⟩
  cases (h.issue c s).1 <;> exact trivial

theorem within_pipeline {cs : List (C α)} (hcs : ∀ c ∈ cs, P α c ∧ h.Total c) :
    (pipeline cs : Prog C ε (List α)).Within h P Returns := by
  induction cs with
  | nil => exact within_pure []
  | cons c cs ih =>
      obtain ⟨hP, hc⟩ := hcs c List.mem_cons_self
      refine (within_call hP hc).then fun b => ?_
      exact (ih fun d hd => hcs d (List.mem_cons_of_mem c hd)).then fun bs => within_pure (b :: bs)

theorem Within.tryFinally {p : Prog C ε α} {fin : Prog C ε Unit} (hp : p.Within h P Q)
    (hfin : fin.Within h P Returns) : (p.tryFinally fin).Within h P Q := by
  induction p with
  | ret a => exact hfin.then fun _ => hp
  | raise e => exact hfin.then fun _ => hp
  | cmd c next ih => exact ⟨hp.1, fun s => ih _ (hp.2 s)⟩

/-- Commands that keep to `R` whenever they are issued make a thread that does, and ends as it does
alone. -/
theorem Within.ensures {A : (β : Type) → C β → S → Bool} {R : S → S → Prop}
    (hP : ∀ (β : Type) (c : C β) s b s', P β c → h β c s = .ok (b, s') → R s s') {p : Prog C ε α}
    (hp : p.Within h P Q) (s : S) : p.Ensures h A R (fun r _ => Q r) s := by
  induction p generalizing s with
  | ret a => exact fun _ _ => hp
  | raise e => exact fun _ _ => hp
  | cmd c next ih =>
      intro t _ _
      constructor
      · intro b t' hb
        have hnext := hp.2 t
        rw [Handler.issue_of_ok hb] at hnext
        exact ⟨hP _ c t b t' hp.1 hb, ih _ hnext t'⟩
      · intro e he
        have hnext := hp.2 t
        rw [Handler.issue_of_error he] at hnext
        exact ih _ hnext t

end Prog

end HighLoad
