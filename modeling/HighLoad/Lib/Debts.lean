/-
# HighLoad.Lib.Debts — cleaning up after oneself, among others

A property `J` of the shared state that programs break and make good again. A program that breaks it
owes the repair: however it goes on, it issues a command that restores `J` from any state before it
ends (`Owes`). When every program is honest about its debts, in each state of an interleaving `J` holds
or some thread owes the repair (`Pool.holds_or_owed`), so `J` holds once all threads have ended
(`Pool.holds_when_ended`), although no thread can tell what the others have left to do. Commands may
rely on a second property `I` that holds throughout.

`Spends` bounds what a program adds to a measure of the state that all threads share; budgets for the
threads are an invariant of the pool (`Pool.within_budget`).
-/
import HighLoad.Lib.Within
import Mathlib.Algebra.BigOperators.Group.Finset.Piecewise
import Mathlib.Algebra.GroupWithZero.Nat
import Mathlib.Algebra.Order.BigOperators.Group.Finset

namespace HighLoad

variable {C : Type → Type} {ε S α β : Type}

/-! ## Debts -/

/-- The command leaves `J` true. -/
def Handler.Keeps (h : Handler C ε S) (I J : S → Prop) (c : C β) : Prop :=
  ∀ s, I s → J s → J (h.issue c s).2

/-- The command makes `J` true. -/
def Handler.Restores (h : Handler C ε S) (I J : S → Prop) (c : C β) : Prop :=
  ∀ s, I s → J (h.issue c s).2

namespace Prog

/-- However the program goes on, it issues a command that makes `J` true before it ends. -/
def Owes (h : Handler C ε S) (I J : S → Prop) : Prog C ε α → Prop
  | ret _ => False
  | raise _ => False
  | cmd c next => h.Restores I J c ∨ ∀ s, Owes h I J (next (h.issue c s).1)

/-- After a command that may make `J` false the program owes the repair. -/
def Honest (h : Handler C ε S) (I J : S → Prop) : Prog C ε α → Prop
  | ret _ => True
  | raise _ => True
  | cmd c next => ∀ s, (h.Keeps I J c ∨ (next (h.issue c s).1).Owes h I J) ∧
      Honest h I J (next (h.issue c s).1)

variable {h : Handler C ε S} {I J : S → Prop} {P : (β : Type) → C β → Prop}
  {Q : Except ε α → Prop}

theorem Owes.outcome {p : Prog C ε α} (hp : p.Owes h I J) : p.outcome = none := by
  cases p with
  | ret a => exact hp.elim
  | raise e => exact hp.elim
  | cmd c next => rfl

/-! ### The rules for the constructs -/

theorem owes_call {c : C α} (hc : h.Restores I J c) : (call c : Prog C ε α).Owes h I J := Or.inl hc

/-- A debt of the first program is one of the sequence. -/
theorem Owes.bind {p : Prog C ε α} {k : α → Prog C ε β} (hp : p.Owes h I J) :
    (p >>= k).Owes h I J := by
  show (p.bind k).Owes h I J
  induction p with
  | ret a => exact hp.elim
  | raise e => exact hp.elim
  | cmd c next ih => exact hp.imp_right fun hnext s => ih _ (hnext s)

/-- A debt of the second program is one of the sequence, if the first returns. -/
theorem Within.owes_then {p : Prog C ε α} {k : α → Prog C ε β} (hp : p.Within h P Returns)
    (hk : ∀ a, (k a).Owes h I J) : (p >>= k).Owes h I J := by
  show (p.bind k).Owes h I J
  induction p with
  | ret a => exact hk a
  | raise e =>
      obtain ⟨a, ha⟩ := hp
      cases ha
  | cmd c next ih => exact Or.inr fun s => ih _ (hp.2 s)

theorem owes_pipeline {cs : List (C α)} (htotal : ∀ c ∈ cs, h.Total c)
    (hcs : ∃ c ∈ cs, h.Restores I J c) : (pipeline cs : Prog C ε (List α)).Owes h I J := by
  induction cs with
  | nil =>
      obtain ⟨c, hc, -⟩ := hcs
      cases hc
  | cons c cs ih =>
      obtain ⟨d, hd, hrestores⟩ := hcs
      obtain rfl | hd := List.mem_cons.mp hd
      · exact (owes_call hrestores).bind
      · have hcall : (call c : Prog C ε α).Within h (fun _ _ => True) Returns :=
          within_call trivial (htotal c List.mem_cons_self)
        refine hcall.owes_then fun b => ?_
        exact (ih (fun e he => htotal e (List.mem_cons_of_mem c he)) ⟨d, hd, hrestores⟩).bind

theorem owes_tryFinally {p : Prog C ε α} {fin : Prog C ε Unit} (hfin : fin.Owes h I J) :
    (p.tryFinally fin).Owes h I J := by
  induction p with
  | ret a => exact hfin.bind
  | raise e => exact hfin.bind
  | cmd c next ih => exact Or.inr fun s => ih _

/-- A program that leaves `J` alone. -/
theorem honest_of_within {p : Prog C ε α} (hp : p.Within h (fun _ c => h.Keeps I J c) Q) :
    p.Honest h I J := by
  induction p with
  | ret a => exact trivial
  | raise e => exact trivial
  | cmd c next ih => exact fun s => ⟨Or.inl hp.1, ih _ (hp.2 s)⟩

theorem Honest.bind {p : Prog C ε α} {k : α → Prog C ε β} (hp : p.Honest h I J)
    (hk : ∀ a, (k a).Honest h I J) : (p >>= k).Honest h I J := by
  show (p.bind k).Honest h I J
  induction p with
  | ret a => exact hk a
  | raise e => exact trivial
  | cmd c next ih => exact fun s => ⟨(hp s).1.imp_right Owes.bind, ih _ (hp s).2⟩

/-- What one command of the list breaks a later one restores. -/
def Covered (h : Handler C ε S) (I J : S → Prop) (cs : List (C β)) : Prop :=
  ∀ before c after, cs = before ++ c :: after → h.Keeps I J c ∨ ∃ d ∈ after, h.Restores I J d

theorem covered_of_keeps {cs : List (C β)} (hcs : ∀ c ∈ cs, h.Keeps I J c) : Covered h I J cs := by
  rintro before c after rfl
  exact Or.inl (hcs c (List.mem_append_right _ List.mem_cons_self))

/-- A restoring command at the end covers all before it. -/
theorem covered_concat {d : C β} (hd : h.Restores I J d) (cs : List (C β)) :
    Covered h I J (cs ++ [d]) := by
  intro before c after hsplit
  cases hafter : after.getLast? with
  | none =>
      rw [List.getLast?_eq_none_iff] at hafter
      subst hafter
      obtain ⟨-, hlast⟩ := List.append_inj' hsplit rfl
      obtain rfl := (List.cons.inj hlast).1
      exact Or.inl fun s hI _ => hd s hI
  | some last =>
      have hlast : (cs ++ [d]).getLast? = some last := by
        rw [hsplit, List.getLast?_append, List.getLast?_cons, hafter]
        rfl
      rw [List.getLast?_concat] at hlast
      obtain rfl := Option.some.inj hlast
      exact Or.inr ⟨d, List.mem_of_getLast? hafter, hd⟩

theorem Covered.append {cs ds : List (C β)} (hcs : Covered h I J cs) (hds : Covered h I J ds) :
    Covered h I J (cs ++ ds) := by
  intro before c after hsplit
  obtain ⟨mid, rfl, hafter⟩ | ⟨mid, rfl, hrest⟩ := List.append_eq_append_iff.mp hsplit
  · exact hds mid c after hafter
  · cases mid with
    | nil =>
        obtain rfl : c :: after = ds := hrest
        exact hds [] c after rfl
    | cons d mid =>
        obtain ⟨rfl, rfl⟩ := List.cons.inj hrest
        refine (hcs before c mid rfl).imp_right ?_
        rintro ⟨d, hd, hrestores⟩
        exact ⟨d, List.mem_append_left _ hd, hrestores⟩

theorem covered_flatMap {γ : Type} {l : List γ} {f : γ → List (C β)}
    (hf : ∀ x ∈ l, Covered h I J (f x)) : Covered h I J (l.flatMap f) := by
  induction l with
  | nil => exact covered_of_keeps nofun
  | cons x l ih =>
      rw [List.flatMap_cons]
      exact (hf x List.mem_cons_self).append (ih fun y hy => hf y (List.mem_cons_of_mem x hy))

/-- A pipeline in which what one command breaks a later one restores. -/
theorem honest_pipeline {cs : List (C α)} (htotal : ∀ c ∈ cs, h.Total c)
    (hcs : Covered h I J cs) :
    (pipeline cs : Prog C ε (List α)).Honest h I J := by
  induction cs with
  | nil => exact trivial
  | cons c cs ih =>
      have htotal' : ∀ d ∈ cs, h.Total d := fun d hd => htotal d (List.mem_cons_of_mem c hd)
      intro s
      obtain ⟨b, hb⟩ := htotal c List.mem_cons_self s
      rw [hb]
      show (h.Keeps I J c ∨ (pipeline cs >>= fun bs => pure (b :: bs)).Owes h I J) ∧
        (pipeline cs >>= fun bs => pure (b :: bs)).Honest h I J
      constructor
      · refine (hcs [] c cs rfl).imp_right fun hlater => ?_
        exact (owes_pipeline htotal' hlater).bind
      · refine (ih htotal' fun before d after hsplit => ?_).bind fun bs => trivial
        exact hcs (c :: before) d after (by rw [hsplit]; rfl)

/-- A `finally` block that restores `J` makes any program honest. -/
theorem honest_tryFinally {p : Prog C ε α} {fin : Prog C ε Unit} (howes : fin.Owes h I J)
    (hhonest : fin.Honest h I J) : (p.tryFinally fin).Honest h I J := by
  induction p with
  | ret a => exact hhonest.bind fun _ => trivial
  | raise e => exact hhonest.bind fun _ => trivial
  | cmd c next ih => exact fun s => ⟨Or.inr (owes_tryFinally howes), ih _⟩

end Prog

namespace Pool

variable {h : Handler C ε S} {I J : S → Prop} {p p' start final : Pool C ε S α} {schedule : List Nat}

/-- The threads are honest, and `J` holds or one of them owes the repair. -/
structure Solvent (h : Handler C ε S) (I J : S → Prop) (p : Pool C ε S α) : Prop where
  honest : ∀ (i : Nat) (q : Prog C ε α), p.threads[i]? = some q → q.Honest h I J
  owed : J p.state ∨ ∃ (i : Nat) (q : Prog C ε α), p.threads[i]? = some q ∧ q.Owes h I J

theorem Solvent.step (hp : Solvent h I J p) (hI : I p.state) {i : Nat}
    (hstep : step h i p = some p') : Solvent h I J p' := by
  obtain ⟨β, c, next, hi, rfl⟩ := step_issue hstep
  obtain ⟨hlt, -⟩ := List.getElem?_eq_some_iff.mp hi
  obtain ⟨hdebt, hnext⟩ := hp.honest i _ hi p.state
  have hself : (p.threads.set i (next (h.issue c p.state).1))[i]?
      = some (next (h.issue c p.state).1) := List.getElem?_set_self hlt
  have hother : ∀ {j : Nat}, j ≠ i →
      (p.threads.set i (next (h.issue c p.state).1))[j]? = p.threads[j]? :=
    fun hj => List.getElem?_set_ne hj.symm
  constructor
  · intro j q hq
    by_cases hj : j = i
    · subst hj
      obtain rfl := Option.some.inj (hself.symm.trans hq)
      exact hnext
    · exact hp.honest j q ((hother hj).symm.trans hq)
  · obtain hJ | ⟨j, q, hq, howes⟩ := hp.owed
    · -- nothing is owed: the command keeps `J` or its thread owes from now on
      obtain hkeeps | howes := hdebt
      · exact Or.inl (hkeeps p.state hI hJ)
      · exact Or.inr ⟨i, _, hself, howes⟩
    · by_cases hj : j = i
      · -- the debtor moves: it pays or goes on owing
        subst hj
        obtain rfl := Option.some.inj (hi.symm.trans hq)
        obtain hrestores | howes := howes
        · exact Or.inl (hrestores p.state hI)
        · exact Or.inr ⟨j, _, hself, howes p.state⟩
      · exact Or.inr ⟨j, q, (hother hj).trans hq, howes⟩

/-- **In every state of a run of honest threads `J` holds or is owed.** -/
theorem holds_or_owed (hstart : Solvent h I J start)
    (hI : ∀ past rest now, schedule = past ++ rest → exec (step h) past start = some now → I now.state)
    (hrun : exec (step h) schedule start = some final) : Solvent h I J final := by
  induction schedule generalizing start with
  | nil =>
      obtain rfl : start = final := Option.some.inj hrun
      exact hstart
  | cons i schedule ih =>
      obtain ⟨p, hp, hrest⟩ := exec_cons_eq_some.mp hrun
      refine ih (hstart.step (hI [] _ start rfl rfl) hp) (fun past rest now hsplit hpast => ?_) hrest
      exact hI (i :: past) rest now (by rw [hsplit]; rfl) (exec_cons_eq_some.mpr ⟨p, hp, hpast⟩)

/-- Every thread has returned or raised. -/
def Ended (p : Pool C ε S α) : Prop := p.threads.all (fun q => q.outcome.isSome) = true

instance (p : Pool C ε S α) : Decidable p.Ended := inferInstanceAs (Decidable (_ = true))

/-- **Then nothing is owed.** -/
theorem holds_when_ended (hp : Solvent h I J p) (hended : p.Ended) : J p.state := by
  obtain hJ | ⟨i, q, hq, howes⟩ := hp.owed
  · exact hJ
  · have hq' := List.all_eq_true.mp hended q (List.mem_of_getElem? hq)
    rw [howes.outcome] at hq'
    cases hq'

end Pool

/-! ## Budgets -/

namespace Prog

/-- The commands add at most `n` in all to the measure of the state. -/
def Spends (h : Handler C ε S) (size : S → Nat) : Prog C ε α → Nat → Prop
  | ret _, _ => True
  | raise _, _ => True
  | cmd c next, n => ∃ k ≤ n, (∀ s, size (h.issue c s).2 ≤ size s + k) ∧
      ∀ s, Spends h size (next (h.issue c s).1) (n - k)

variable {h : Handler C ε S} {size : S → Nat} {n m : Nat}

theorem spends_pure (a : α) : (pure a : Prog C ε α).Spends h size n := trivial

theorem Spends.mono {p : Prog C ε α} (hp : p.Spends h size n) (hle : n ≤ m) : p.Spends h size m := by
  induction p generalizing n m with
  | ret a => exact trivial
  | raise e => exact trivial
  | cmd c next ih =>
      obtain ⟨k, hk, hsize, hnext⟩ := hp
      exact ⟨k, hk.trans hle, hsize, fun s => ih _ (hnext s) (Nat.sub_le_sub_right hle k)⟩

theorem Spends.bind {p : Prog C ε α} {k : α → Prog C ε β} (hp : p.Spends h size n)
    (hk : ∀ a, (k a).Spends h size m) : (p >>= k).Spends h size (n + m) := by
  show (p.bind k).Spends h size (n + m)
  induction p generalizing n with
  | ret a => exact (hk a).mono (Nat.le_add_left m n)
  | raise e => exact trivial
  | cmd c next ih =>
      obtain ⟨j, hj, hsize, hnext⟩ := hp
      refine ⟨j, hj.trans (Nat.le_add_right n m), hsize, fun s => ?_⟩
      rw [Nat.sub_add_comm hj]
      exact ih _ (hnext s)

/-- A command that adds nothing, and what comes after each of its replies. -/
theorem spends_call_bind {c : C β} {k : β → Prog C ε α} (hsize : ∀ s, size (h.issue c s).2 ≤ size s)
    (hk : ∀ s b, (h.issue c s).1 = .ok b → (k b).Spends h size n) :
    (call c >>= k).Spends h size n := by
  refine ⟨0, Nat.zero_le n, hsize, fun s => ?_⟩
  cases hreply : (h.issue c s).1 with
  | ok b => exact hk s b hreply
  | error e => exact trivial

/-- A program none of whose commands adds anything. -/
theorem spends_of_within {Q : Except ε α → Prop} {p : Prog C ε α}
    (hp : p.Within h (fun _ c => ∀ s, size (h.issue c s).2 ≤ size s) Q) : p.Spends h size 0 := by
  induction p with
  | ret a => exact trivial
  | raise e => exact trivial
  | cmd c next ih => exact ⟨0, le_refl 0, hp.1, fun s => ih _ (hp.2 s)⟩

theorem spends_pipeline {cs : List (C α)} {cost : C α → Nat}
    (hcs : ∀ c ∈ cs, ∀ s, size (h.issue c s).2 ≤ size s + cost c) :
    (pipeline cs : Prog C ε (List α)).Spends h size (cs.map cost).sum := by
  induction cs with
  | nil => exact trivial
  | cons c cs ih =>
      have hrest := ih fun d hd => hcs d (List.mem_cons_of_mem c hd)
      refine ⟨cost c, ?_, hcs c List.mem_cons_self, fun s => ?_⟩
      · rw [List.map_cons, List.sum_cons]
        exact Nat.le_add_right _ _
      · rw [List.map_cons, List.sum_cons, Nat.add_sub_cancel_left]
        cases (h.issue c s).1 with
        | ok b =>
            have hlast : ∀ bs, (pure (b :: bs) : Prog C ε (List α)).Spends h size 0 :=
              fun bs => spends_pure _
            exact hrest.bind hlast
        | error e => exact trivial

theorem Spends.tryFinally {p : Prog C ε α} {fin : Prog C ε Unit} (hp : p.Spends h size n)
    (hfin : fin.Spends h size m) : (p.tryFinally fin).Spends h size (n + m) := by
  induction p generalizing n with
  | ret a =>
      have hlast : (ret a : Prog C ε α).Spends h size 0 := trivial
      exact (hfin.bind fun _ => hlast).mono (Nat.le_add_left m n)
  | raise e =>
      have hlast : (raise e : Prog C ε α).Spends h size 0 := trivial
      exact (hfin.bind fun _ => hlast).mono (Nat.le_add_left m n)
  | cmd c next ih =>
      obtain ⟨j, hj, hsize, hnext⟩ := hp
      refine ⟨j, hj.trans (Nat.le_add_right n m), hsize, fun s => ?_⟩
      rw [Nat.sub_add_comm hj]
      exact ih _ (hnext s)

end Prog

namespace Pool

variable {h : Handler C ε S} {size : S → Nat} {p p' start final : Pool C ε S α} {schedule : List Nat}
  {cap : Nat}

/-- The threads have budgets that the measure has room for. -/
def Budgeted (h : Handler C ε S) (size : S → Nat) (cap : Nat) (p : Pool C ε S α) : Prop :=
  ∃ budget : Nat → Nat, (∀ (i : Nat) (q : Prog C ε α), p.threads[i]? = some q → q.Spends h size (budget i)) ∧
    size p.state + ∑ i ∈ Finset.range p.threads.length, budget i ≤ cap

theorem Budgeted.step (hp : Budgeted h size cap p) {i : Nat} (hstep : step h i p = some p') :
    Budgeted h size cap p' := by
  obtain ⟨budget, hspends, hroom⟩ := hp
  obtain ⟨β, c, next, hi, rfl⟩ := step_issue hstep
  obtain ⟨hlt, -⟩ := List.getElem?_eq_some_iff.mp hi
  obtain ⟨k, hk, hsize, hnext⟩ := hspends i _ hi
  refine ⟨Function.update budget i (budget i - k), ?_, ?_⟩
  · intro j q hq
    by_cases hj : j = i
    · subst hj
      rw [List.getElem?_set_self hlt] at hq
      obtain rfl := Option.some.inj hq
      rw [Function.update_self]
      exact hnext p.state
    · rw [List.getElem?_set_ne (Ne.symm hj)] at hq
      rw [Function.update_of_ne hj]
      exact hspends j q hq
  · -- what the command adds comes out of the budget of its thread
    have hmem : i ∈ Finset.range p.threads.length := Finset.mem_range.mpr hlt
    have hsum := Finset.add_sum_erase _ budget hmem
    have hafter := hsize p.state
    simp only [List.length_set]
    rw [Finset.sum_update_of_mem hmem, Finset.sdiff_singleton_eq_erase]
    omega

/-- **The measure stays within what the budgets allow.** -/
theorem within_budget (hstart : Budgeted h size cap start)
    (hrun : exec (step h) schedule start = some final) : size final.state ≤ cap := by
  obtain ⟨budget, -, hroom⟩ := exec_invariant (P := Budgeted h size cap)
    (fun _ _ _ _ hp hstep => hp.step hstep) hstart hrun
  exact (Nat.le_add_right _ _).trans hroom

end Pool

end HighLoad
