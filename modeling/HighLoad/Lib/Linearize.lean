/-
# HighLoad.Lib.Linearize — threads that take effect once

An operation says what a program is for in terms of a datum that the state carries: what it does to
the datum, and how it ends where the datum alone decides that. A program performs an operation when one
of its commands has the whole effect, all at once, and the others leave the datum alone: `Pending`
before that command and `Settled` after it. `Linearized` is the invariant of a pool of such programs,
with the list of the threads that have taken effect: the datum is what the operations make of it in
that order, each thread that has ended has ended as its operation would there, and a thread not in the
list has yet to take effect. A step appends at most the thread that moved, so the list respects the
order in which the operations ran one after the other (`linearizable`).
-/
import HighLoad.Lib.Within
import Mathlib.Data.List.Nodup

namespace HighLoad

variable {C : Type → Type} {ε S D α β : Type}

/-- What an operation does to a datum, and its outcome where the datum decides it. -/
structure Operation (D ε α : Type) where
  effect : D → D
  answer : D → Option (Except ε α)

namespace Operation

/-- Nothing is done, and the outcome is free. -/
def idle : Operation D ε α := ⟨id, fun _ => none⟩

/-- The outcome is that of the operation on the datum. -/
def Answers (o : Operation D ε α) (d : D) (r : Except ε α) : Prop :=
  ∀ r' ∈ o.answer d, r = r'

/-- Operations one after the other, in an order of their numbers. -/
def replay (ops : Nat → Operation D ε α) (order : List Nat) (d : D) : D :=
  order.foldl (fun d i => (ops i).effect d) d

theorem replay_concat (ops : Nat → Operation D ε α) (order : List Nat) (i : Nat) (d : D) :
    replay ops (order ++ [i]) d = (ops i).effect (replay ops order d) := by
  unfold replay
  rw [List.foldl_append]
  rfl

end Operation

namespace Prog

variable {h : Handler C ε S} {view : S → D} {I : D → Prop} {o : Operation D ε α}
  {Q : Except ε α → Prop}

/-! ## Programs that have taken effect -/

/-- The program leaves the datum alone, and its outcome satisfies `Q`. -/
abbrev Settled (h : Handler C ε S) (view : S → D) (Q : Except ε α → Prop) (p : Prog C ε α) : Prop :=
  p.Within h (fun _ c => ∀ s, view (h.issue c s).2 = view s) Q

theorem Settled.run {p : Prog C ε α} (hp : p.Settled h view Q) (s : S) :
    view (p.run h s).2 = view s ∧ Q (p.run h s).1 := by
  induction p generalizing s with
  | ret a => exact ⟨rfl, hp⟩
  | raise e => exact ⟨rfl, hp⟩
  | cmd c next ih =>
      rw [run_issue]
      obtain ⟨hrest, hQ⟩ := ih _ (hp.2 s) (h.issue c s).2
      exact ⟨hrest.trans (hp.1 s), hQ⟩

/-! ## Programs that will take effect -/

/-- The program has an effect on the datum ahead of it: that of the operation, with one command. The
datum satisfies `I` when a command is issued. -/
def Pending (h : Handler C ε S) (view : S → D) (I : D → Prop) (o : Operation D ε α) :
    Prog C ε α → Prop
  | ret _ => False
  | raise _ => False
  | cmd c next => ∀ s, I (view s) →
      (view (h.issue c s).2 = view s ∧ Pending h view I o (next (h.issue c s).1)) ∨
      (view (h.issue c s).2 = o.effect (view s) ∧
        (next (h.issue c s).1).Settled h view (o.Answers (view s)))

/-- The program does what the operation says: it will, or it has ended without a command and the
operation has no effect. -/
def Fulfils (h : Handler C ε S) (view : S → D) (I : D → Prop) (o : Operation D ε α)
    (p : Prog C ε α) : Prop :=
  p.Pending h view I o ∨
    ∃ r, p.outcome = some r ∧ ∀ d, I d → o.effect d = d ∧ o.Answers d r

theorem Pending.outcome {p : Prog C ε α} (hp : p.Pending h view I o) : p.outcome = none := by
  cases p with
  | ret a => exact hp.elim
  | raise e => exact hp.elim
  | cmd c next => rfl

/-- A program that raises at once. -/
theorem fulfils_raise {e : ε} (he : ∀ d, I d → o.effect d = d ∧ o.Answers d (.error e)) :
    (raise e : Prog C ε α).Fulfils h view I o :=
  Or.inr ⟨.error e, rfl, he⟩

/-- A command that has no effect yet, one that has it, or one whose exception is the outcome. -/
theorem pending_call {c : C β} {k : β → Prog C ε α}
    (hc : ∀ s, I (view s) →
      (∃ b s', h β c s = .ok (b, s') ∧
        ((view s' = view s ∧ (k b).Pending h view I o) ∨
          (view s' = o.effect (view s) ∧ (k b).Settled h view (o.Answers (view s))))) ∨
      ∃ e, h β c s = .error e ∧ o.effect (view s) = view s ∧ o.Answers (view s) (.error e)) :
    (call c >>= k).Pending h view I o := by
  intro s hI
  obtain ⟨b, s', hb, hcase⟩ | ⟨e, he, heffect, hanswer⟩ := hc s hI
  · rw [Handler.issue_of_ok hb]
    exact hcase
  · rw [Handler.issue_of_error he]
    exact Or.inr ⟨heffect.symm, hanswer⟩

/-- A program that leaves the datum alone does nothing. -/
theorem Settled.fulfils_idle {p : Prog C ε α} (hp : p.Settled h view fun _ => True) :
    p.Fulfils h view I .idle := by
  have hall : ∀ d r, (Operation.idle : Operation D ε α).Answers d r := by
    intro d r r' hr'
    cases hr'
  cases p with
  | ret a => exact Or.inr ⟨.ok a, rfl, fun d _ => ⟨rfl, hall d _⟩⟩
  | raise e => exact Or.inr ⟨.error e, rfl, fun d _ => ⟨rfl, hall d _⟩⟩
  | cmd c next =>
      refine Or.inl fun s _ => Or.inr ⟨hp.1 s, ?_⟩
      exact Within.mono (fun _ _ hd => hd) (fun r _ => hall _ r) (hp.2 s)

/-- **Run alone, a program that performs an operation does just that.** -/
theorem Fulfils.run {p : Prog C ε α} (hp : p.Fulfils h view I o) {s : S} (hI : I (view s)) :
    view (p.run h s).2 = o.effect (view s) ∧ o.Answers (view s) (p.run h s).1 := by
  obtain hp | ⟨r, hr, hall⟩ := hp
  · induction p generalizing s with
    | ret a => exact hp.elim
    | raise e => exact hp.elim
    | cmd c next ih =>
        rw [run_issue]
        obtain ⟨hview, hnext⟩ | ⟨hview, hnext⟩ := hp s hI
        · rw [← hview] at hI ⊢
          exact ih _ hI hnext
        · obtain ⟨hrest, hanswer⟩ := hnext.run (h.issue c s).2
          exact ⟨hrest.trans hview, hanswer⟩
  · obtain ⟨heffect, hanswer⟩ := hall (view s) hI
    cases p with
    | ret a =>
        obtain rfl := Option.some.inj hr
        exact ⟨heffect.symm, hanswer⟩
    | raise e =>
        obtain rfl := Option.some.inj hr
        exact ⟨heffect.symm, hanswer⟩
    | cmd c next => cases hr

end Prog

namespace Pool

open Operation

variable {h : Handler C ε S} {view : S → D} {I : D → Prop} {ops : Nat → Operation D ε α} {d : D}
  {p p' start final : Pool C ε S α} {order : List Nat} {schedule : List Nat}

/-- **The invariant of a pool.** The threads of `order` have taken effect in that order on the datum `d`,
the others have yet to. -/
structure Linearized (h : Handler C ε S) (view : S → D) (I : D → Prop)
    (ops : Nat → Operation D ε α) (d : D) (order : List Nat) (p : Pool C ε S α) : Prop where
  nodup : order.Nodup
  datum : view p.state = replay ops order d
  sound : I (view p.state)
  settled : ∀ before i after, order = before ++ i :: after → ∃ q, p.threads[i]? = some q ∧
    q.Settled h view ((ops i).Answers (replay ops before d))
  pending : ∀ i q, p.threads[i]? = some q → i ∉ order → q.Pending h view I (ops i)

namespace Linearized

/-- A thread that has taken effect. -/
theorem of_mem (hp : Linearized h view I ops d order p) {i : Nat} (hi : i ∈ order) :
    ∃ q Q, p.threads[i]? = some q ∧ q.Settled h view Q := by
  obtain ⟨before, after, hsplit⟩ := List.mem_iff_append.mp hi
  obtain ⟨q, hq, hsettled⟩ := hp.settled before i after hsplit
  exact ⟨q, _, hq, hsettled⟩

/-- A thread that has ended has taken effect. -/
theorem mem_of_ended (hp : Linearized h view I ops d order p) {i : Nat} {r : Except ε α}
    (hr : p.outcome i = some r) : i ∈ order := by
  obtain ⟨q, hq, hout⟩ := Option.bind_eq_some_iff.mp hr
  by_contra hi
  rw [(hp.pending i q hq hi).outcome] at hout
  cases hout

/-- It has ended as its operation would have in its place. -/
theorem answers (hp : Linearized h view I ops d order p) {before after : List Nat} {i : Nat}
    {r : Except ε α} (hsplit : order = before ++ i :: after) (hr : p.outcome i = some r) :
    (ops i).Answers (replay ops before d) r := by
  obtain ⟨q, hq, hsettled⟩ := hp.settled before i after hsplit
  obtain ⟨q', hq', hout⟩ := Option.bind_eq_some_iff.mp hr
  obtain rfl : q = q' := Option.some.inj (hq.symm.trans hq')
  cases q with
  | ret a =>
      obtain rfl := Option.some.inj hout
      exact hsettled
  | raise e =>
      obtain rfl := Option.some.inj hout
      exact hsettled
  | cmd c next => cases hout

/-- **A step appends at most the thread that moved.** -/
theorem step (hp : Linearized h view I ops d order p) (hI : ∀ i e, I e → I ((ops i).effect e))
    {i : Nat} (hstep : step h i p = some p') :
    Linearized h view I ops d order p' ∨ Linearized h view I ops d (order ++ [i]) p' := by
  obtain ⟨β, c, next, hi, rfl⟩ := step_issue hstep
  obtain ⟨hlt, -⟩ := List.getElem?_eq_some_iff.mp hi
  have hself : ∀ q : Prog C ε α, (p.threads.set i q)[i]? = some q := fun q =>
    List.getElem?_set_self hlt
  have hother : ∀ (q : Prog C ε α) {j : Nat}, j ≠ i → (p.threads.set i q)[j]? = p.threads[j]? :=
    fun q j hj => List.getElem?_set_ne hj.symm
  by_cases hmem : i ∈ order
  · -- the thread has taken effect: the datum stays
    left
    obtain ⟨q, Q, hq, hsettled⟩ := hp.of_mem hmem
    obtain rfl := Option.some.inj (hi.symm.trans hq)
    have hview := hsettled.1 p.state
    refine ⟨hp.nodup, hview.trans hp.datum, hview ▸ hp.sound, ?_, ?_⟩
    · intro before j after hsplit
      obtain ⟨q, hq, hsettled⟩ := hp.settled before j after hsplit
      by_cases hj : j = i
      · rw [hj, hi] at hq
        obtain rfl := Option.some.inj hq
        exact ⟨_, hj ▸ hself _, hsettled.2 p.state⟩
      · exact ⟨q, (hother _ hj).trans hq, hsettled⟩
    · intro j q hq hj
      have hne : j ≠ i := fun hji => hj (hji ▸ hmem)
      exact hp.pending j q ((hother _ hne).symm.trans hq) hj
  · obtain ⟨hview, hnext⟩ | ⟨hview, hnext⟩ := hp.pending i _ hi hmem p.state hp.sound
    · -- it has not, and does not now
      left
      refine ⟨hp.nodup, hview.trans hp.datum, hview ▸ hp.sound, ?_, ?_⟩
      · intro before j after hsplit
        obtain ⟨q, hq, hsettled⟩ := hp.settled before j after hsplit
        have hne : j ≠ i := by
          rintro rfl
          exact hmem (hsplit ▸ List.mem_append_right _ List.mem_cons_self)
        exact ⟨q, (hother _ hne).trans hq, hsettled⟩
      · intro j q hq hj
        by_cases hji : j = i
        · subst hji
          obtain rfl := Option.some.inj ((hself _).symm.trans hq)
          exact hnext
        · exact hp.pending j q ((hother _ hji).symm.trans hq) hj
    · -- it takes effect now
      right
      refine ⟨?_, ?_, hview ▸ hI i _ hp.sound, ?_, ?_⟩
      · exact List.nodup_append.mpr ⟨hp.nodup, List.nodup_singleton i, fun j hj k hk hjk =>
          hmem (List.mem_singleton.mp hk ▸ hjk ▸ hj)⟩
      · rw [replay_concat, ← hp.datum]
        exact hview
      · intro before j after hsplit
        obtain ⟨rest, rfl, hafter⟩ | ⟨rest, hbefore, hrest⟩ := List.append_eq_append_iff.mp hsplit
        · -- the one just appended
          cases rest with
          | nil =>
              obtain ⟨rfl, -⟩ := List.cons.inj hafter
              rw [List.append_nil, ← hp.datum]
              exact ⟨_, hself _, hnext⟩
          | cons k rest =>
              obtain ⟨-, habsurd⟩ := List.cons.inj hafter
              exact absurd habsurd.symm (List.append_ne_nil_of_right_ne_nil _ (List.cons_ne_nil _ _))
        · cases rest with
          | nil =>
              obtain ⟨rfl, -⟩ := List.cons.inj hrest
              rw [List.append_nil] at hbefore
              rw [← hbefore, ← hp.datum]
              exact ⟨_, hself _, hnext⟩
          | cons k rest =>
              obtain ⟨rfl, -⟩ := List.cons.inj hrest
              obtain ⟨q, hq, hsettled⟩ := hp.settled before j rest hbefore
              have hne : j ≠ i := by
                rintro rfl
                exact hmem (hbefore ▸ List.mem_append_right _ List.mem_cons_self)
              exact ⟨q, (hother _ hne).trans hq, hsettled⟩
      · intro j q hq hj
        have hne : j ≠ i := by
          rintro rfl
          exact hj (List.mem_append_right _ List.mem_cons_self)
        refine hp.pending j q ((hother _ hne).symm.trans hq) fun hjmem => ?_
        exact hj (List.mem_append_left _ hjmem)

/-- **A run** extends the order, at each of its moments by threads that have moved until then. -/
theorem exec (hp : Linearized h view I ops d order p) (hI : ∀ i e, I e → I ((ops i).effect e))
    (hrun : exec (Pool.step h) schedule p = some final) :
    ∃ all, Linearized h view I ops d all final ∧
      ∀ past rest now, schedule = past ++ rest → HighLoad.exec (Pool.step h) past p = some now →
        ∃ done, order <+: done ∧ done <+: all ∧ (∀ i ∈ done, i ∈ order ∨ i ∈ past) ∧
          Linearized h view I ops d done now := by
  induction schedule generalizing p order with
  | nil =>
      obtain rfl : p = final := Option.some.inj hrun
      refine ⟨order, hp, ?_⟩
      intro past rest now hsplit hpast
      obtain ⟨rfl, -⟩ := List.append_eq_nil_iff.mp hsplit.symm
      obtain rfl : p = now := Option.some.inj hpast
      exact ⟨order, List.prefix_rfl, List.prefix_rfl, fun i hi => Or.inl hi, hp⟩
  | cons i schedule ih =>
      obtain ⟨p', hp', hrest⟩ := exec_cons_eq_some.mp hrun
      obtain ⟨order', hprefix, hnew, hlin⟩ : ∃ order', order <+: order' ∧
          (∀ j ∈ order', j ∈ order ∨ j = i) ∧ Linearized h view I ops d order' p' := by
        obtain hlin | hlin := hp.step hI hp'
        · exact ⟨order, List.prefix_rfl, fun j hj => Or.inl hj, hlin⟩
        · refine ⟨order ++ [i], List.prefix_append _ _, fun j hj => ?_, hlin⟩
          exact (List.mem_append.mp hj).imp_right List.mem_singleton.mp
      obtain ⟨all, hall, hmoments⟩ := ih hlin hrest
      refine ⟨all, hall, ?_⟩
      intro past rest now hsplit hpast
      cases past with
      | nil =>
          obtain rfl : p = now := Option.some.inj hpast
          obtain ⟨done, horder, hdone, -⟩ := hmoments [] schedule p' rfl rfl
          exact ⟨order, List.prefix_rfl, hprefix.trans (horder.trans hdone), fun j hj => Or.inl hj, hp⟩
      | cons k past =>
          obtain ⟨rfl, hsplit'⟩ := List.cons.inj hsplit
          obtain ⟨p'', hp'', hpast'⟩ := exec_cons_eq_some.mp hpast
          obtain rfl : p' = p'' := Option.some.inj (hp'.symm.trans hp'')
          obtain ⟨done, horder, hdone, hmoved, hnow⟩ := hmoments past rest now hsplit' hpast'
          refine ⟨done, hprefix.trans horder, hdone, fun j hj => ?_, hnow⟩
          obtain hj | hj := hmoved j hj
          · exact (hnew j hj).imp_right fun hji : j = i => hji ▸ List.mem_cons_self
          · exact Or.inr (List.mem_cons_of_mem i hj)

end Linearized

/-- The threads that ended before their first command. -/
def instants (p : Pool C ε S α) : List Nat :=
  (List.range p.threads.length).filter fun i => (p.outcome i).isSome

theorem mem_instants {i : Nat} : i ∈ p.instants ↔ (p.outcome i).isSome = true := by
  unfold instants
  rw [List.mem_filter, List.mem_range, and_iff_right_iff_imp]
  intro hi
  obtain ⟨r, hr⟩ := Option.isSome_iff_exists.mp hi
  obtain ⟨q, hq, -⟩ := Option.bind_eq_some_iff.mp hr
  exact (List.getElem?_eq_some_iff.mp hq).1

/-- At the start these have taken effect. -/
theorem linearized_start (hI : I (view p.state))
    (hthreads : ∀ i (q : Prog C ε α), p.threads[i]? = some q → q.Fulfils h view I (ops i)) :
    Linearized h view I ops (view p.state) p.instants p := by
  -- an operation that has ended at once has no effect
  have hinstant : ∀ i ∈ p.instants, ∃ q r, p.threads[i]? = some q ∧ q.outcome = some r ∧
      (ops i).effect (view p.state) = view p.state ∧ (ops i).Answers (view p.state) r := by
    intro i hi
    obtain ⟨r, hr⟩ := Option.isSome_iff_exists.mp (mem_instants.mp hi)
    obtain ⟨q, hq, hout⟩ := Option.bind_eq_some_iff.mp hr
    obtain hpending | ⟨r', hr', heffect⟩ := hthreads i q hq
    · rw [hpending.outcome] at hout
      cases hout
    · exact ⟨q, r', hq, hr', heffect _ hI⟩
  have hreplay : ∀ order, (∀ i ∈ order, i ∈ p.instants) →
      replay ops order (view p.state) = view p.state := by
    intro order horder
    induction order with
    | nil => rfl
    | cons i order ih =>
        obtain ⟨q, r, -, -, heffect, -⟩ := hinstant i (horder i List.mem_cons_self)
        show replay ops order ((ops i).effect (view p.state)) = view p.state
        rw [heffect]
        exact ih fun j hj => horder j (List.mem_cons_of_mem i hj)
  refine ⟨List.nodup_range.filter _, (hreplay _ fun i hi => hi).symm, hI, ?_, ?_⟩
  · intro before i after hsplit
    obtain ⟨q, r, hq, hr, -, hanswer⟩ :=
      hinstant i (hsplit ▸ List.mem_append_right _ List.mem_cons_self)
    rw [hreplay before fun j hj => hsplit ▸ List.mem_append_left _ hj]
    refine ⟨q, hq, ?_⟩
    cases q with
    | ret a =>
        obtain rfl := Option.some.inj hr
        exact hanswer
    | raise e =>
        obtain rfl := Option.some.inj hr
        exact hanswer
    | cmd c next => cases hr
  · intro i q hq hi
    obtain hpending | ⟨r, hr, -⟩ := hthreads i q hq
    · exact hpending
    · refine absurd (mem_instants.mpr ?_) hi
      rw [outcome, hq]
      exact Option.isSome_iff_exists.mpr ⟨r, hr⟩

/-- The operations that have taken effect, in an order that keeps the precedence of the run: what had
ended at a moment precedes what had not begun. -/
def Precedes (h : Handler C ε S) (start : Pool C ε S α) (schedule order : List Nat) : Prop :=
  ∀ past rest now i j, schedule = past ++ rest → exec (step h) past start = some now →
    (now.outcome i).isSome = true → start.outcome j = none → j ∉ past → j ∈ order →
    [i, j].Sublist order

/-- **Threads that perform operations are linearizable.** -/
theorem linearizable (hI : ∀ i d, I d → I ((ops i).effect d)) (hstart : I (view start.state))
    (hthreads : ∀ i (q : Prog C ε α), start.threads[i]? = some q → q.Fulfils h view I (ops i))
    (hrun : exec (step h) schedule start = some final) :
    ∃ order, Linearized h view I ops (view start.state) order final ∧
      Precedes h start schedule order := by
  obtain ⟨order, hfinal, hmoments⟩ := (linearized_start hstart hthreads).exec hI hrun
  refine ⟨order, hfinal, ?_⟩
  intro past rest now i j hsplit hpast hi hj hnot hmem
  obtain ⟨done, -, ⟨later, rfl⟩, hmoved, hnow⟩ := hmoments past rest now hsplit hpast
  obtain ⟨r, hr⟩ := Option.isSome_iff_exists.mp hi
  have hidone : i ∈ done := hnow.mem_of_ended hr
  have hjdone : j ∉ done := by
    intro hjdone
    obtain hinstant | hpast := hmoved j hjdone
    · have hended := mem_instants.mp hinstant
      rw [hj] at hended
      cases hended
    · exact hnot hpast
  have hjlater : j ∈ later := (List.mem_append.mp hmem).resolve_left hjdone
  exact (List.singleton_sublist.mpr hidone).append (List.singleton_sublist.mpr hjlater)

end Pool

end HighLoad
