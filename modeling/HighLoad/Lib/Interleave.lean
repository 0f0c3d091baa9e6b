/-
# HighLoad.Lib.Interleave — concurrent programs and a rely-guarantee logic for them

A pool is a list of programs over one state; a step lets one of them issue its next command, so a
schedule of thread indices is an interleaving of their commands. `noting` adds to the state
notes of the commands issued, which is how a condition speaks about "after that command".

`Ensures h A R Q p s` is the logic of one thread: if each of its commands meets the condition `A` when
it is issued, and the other threads only move the state along `R`, then its own commands move the state
along `R` too and its outcome satisfies `Q`. One relation serves as rely and as guarantee, so threads
that satisfy it can be put together: `ensures_of_meets` is the rule for the whole pool. The rules for
one thread follow the constructs of `Prog`; a pipeline has an assertion on what is left of it, and a
thread whose commands are all harmless needs no more than `Only`.
-/
import HighLoad.Lib.Prog
import HighLoad.Lib.Schedule

namespace HighLoad

variable {C : Type → Type} {ε S α β : Type}

/-! ## Pools -/

/-- Programs running over one state. -/
structure Pool (C : Type → Type) (ε S α : Type) : Type 1 where
  threads : List (Prog C ε α)
  state : S

namespace Prog

/-- The command a program issues next, if any, meets a condition. -/
def issues (A : (β : Type) → C β → S → Bool) (s : S) : Prog C ε α → Bool
  | ret _ => true
  | raise _ => true
  | cmd c _ => A _ c s

/-- How a program has ended, if it has. -/
def outcome : Prog C ε α → Option (Except ε α)
  | ret a => some (.ok a)
  | raise e => some (.error e)
  | cmd _ _ => none

/-- The program has returned. -/
def returned : Prog C ε α → Bool
  | ret _ => true
  | raise _ => false
  | cmd _ _ => false

end Prog

namespace Pool

/-- One thread issues its next command; not enabled when the thread has ended. -/
def step (h : Handler C ε S) (i : Nat) (p : Pool C ε S α) : Option (Pool C ε S α) :=
  match p.threads[i]? with
  | some (.cmd c next) =>
      match h _ c p.state with
      | .ok r => some ⟨p.threads.set i (next (.ok r.1)), r.2⟩
      | .error e => some ⟨p.threads.set i (next (.error e)), p.state⟩
  | _ => none

/-- How a thread has ended, if it has. -/
def outcome (p : Pool C ε S α) (i : Nat) : Option (Except ε α) := p.threads[i]?.bind Prog.outcome

/-- Every thread has returned. -/
def Returned (p : Pool C ε S α) : Prop := p.threads.all Prog.returned = true

instance (p : Pool C ε S α) : Decidable p.Returned := inferInstanceAs (Decidable (_ = true))

/-- Each command of the schedule meets the condition in the state it is issued in. -/
def Meets (h : Handler C ε S) (A : (β : Type) → C β → S → Bool) (start : Pool C ε S α)
    (schedule : List Nat) : Prop :=
  ∀ before i after p q, schedule = before ++ i :: after → exec (step h) before start = some p →
    p.threads[i]? = some q → q.issues A p.state = true

variable {h : Handler C ε S} {A : (β : Type) → C β → S → Bool} {p p' start : Pool C ε S α}

/-- **What a step can do**: a thread had a command left, which the handler took or refused. -/
theorem step_cases {i : Nat} (hstep : step h i p = some p') :
    ∃ (β : Type) (c : C β) (next : Except ε β → Prog C ε α), p.threads[i]? = some (.cmd c next) ∧
      ((∃ b s', h β c p.state = .ok (b, s') ∧ p' = ⟨p.threads.set i (next (.ok b)), s'⟩) ∨
        ∃ e, h β c p.state = .error e ∧ p' = ⟨p.threads.set i (next (.error e)), p.state⟩) := by
  unfold step at hstep
  split at hstep
  case h_1 β c next hi =>
    refine ⟨β, c, next, hi, ?_⟩
    split at hstep
    case h_1 r hr =>
      exact .inl ⟨r.1, r.2, hr, (Option.some.inj hstep).symm⟩
    case h_2 e he =>
      exact .inr ⟨e, he, (Option.some.inj hstep).symm⟩
  case h_2 => cases hstep

/-- `Meets`, evaluated. -/
def meets (h : Handler C ε S) (A : (β : Type) → C β → S → Bool) : List Nat → Pool C ε S α → Bool
  | [], _ => true
  | i :: schedule, p =>
      (match p.threads[i]? with
        | some q => q.issues A p.state
        | none => true) &&
      match step h i p with
      | some p' => meets h A schedule p'
      | none => true

theorem Meets.of_meets {schedule : List Nat} (h' : meets h A schedule start = true) :
    Meets h A start schedule := by
  induction schedule generalizing start with
  | nil =>
      intro before i after p q hsplit
      cases before <;> cases hsplit
  | cons i schedule ih =>
      intro before j after p q hsplit hexec hq
      obtain ⟨hfirst, hrest⟩ := Bool.and_eq_true_iff.mp h'
      cases before with
      | nil =>
          obtain ⟨rfl, -⟩ := List.cons.inj hsplit
          obtain rfl : start = p := Option.some.inj hexec
          rw [hq] at hfirst
          exact hfirst
      | cons k before =>
          obtain ⟨rfl, hsplit'⟩ := List.cons.inj hsplit
          obtain ⟨p', hp', hexec⟩ := exec_cons_eq_some.mp hexec
          rw [hp'] at hrest
          exact ih hrest before j after p q hsplit' hexec hq

/-- The condition on a schedule is a condition on its first command and on the rest. -/
theorem Meets.cons {i : Nat} {schedule : List Nat} (hmeets : Meets h A start (i :: schedule)) :
    (∀ q, start.threads[i]? = some q → q.issues A start.state = true) ∧
      ∀ p, step h i start = some p → Meets h A p schedule := by
  constructor
  · intro q hq
    exact hmeets [] i schedule start q rfl rfl hq
  · intro p hp before j after p' q hsplit hexec hq
    refine hmeets (i :: before) j after p' q (by rw [hsplit]; rfl) ?_ hq
    exact exec_cons_eq_some.mpr ⟨p, hp, hexec⟩

end Pool

/-! ## A thread among others -/

namespace Prog

/-- **The logic of one thread.** Its commands keep to `R` as long as they meet `A` when issued and the
other threads keep to `R`, and it ends in an outcome and a state that satisfy `Q`. -/
def Ensures (h : Handler C ε S) (A : (β : Type) → C β → S → Bool) (R : S → S → Prop)
    (Q : Except ε α → S → Prop) : Prog C ε α → S → Prop
  | ret a, s => ∀ s', R s s' → Q (.ok a) s'
  | raise e, s => ∀ s', R s s' → Q (.error e) s'
  | cmd (β := β) c next, s => ∀ s', R s s' → A β c s' = true →
      (∀ b s'', h β c s' = .ok (b, s'') → R s' s'' ∧ Ensures h A R Q (next (.ok b)) s'') ∧
        ∀ e, h β c s' = .error e → Ensures h A R Q (next (.error e)) s'

variable {h : Handler C ε S} {A : (β : Type) → C β → S → Bool} {R : S → S → Prop} {s s' : S}
  {Q : Except ε α → S → Prop}

/-- What the other threads do leaves the assertion as it is. -/
theorem Ensures.rely [IsTrans S R] {p : Prog C ε α} (hp : Ensures h A R Q p s) (hs : R s s') :
    Ensures h A R Q p s' := by
  cases p with
  | ret a => exact fun t ht => hp t (trans_of R hs ht)
  | raise e => exact fun t ht => hp t (trans_of R hs ht)
  | cmd c next => exact fun t ht => hp t (trans_of R hs ht)

theorem Ensures.mono {Q' : Except ε α → S → Prop} (hQ : ∀ r t, Q r t → Q' r t) {p : Prog C ε α}
    (hp : Ensures h A R Q p s) : Ensures h A R Q' p s := by
  induction p generalizing s with
  | ret a => exact fun t ht => hQ _ _ (hp t ht)
  | raise e => exact fun t ht => hQ _ _ (hp t ht)
  | cmd c next ih =>
      intro t ht hA
      obtain ⟨hok, herror⟩ := hp t ht hA
      exact ⟨fun b t' hb => ⟨(hok b t' hb).1, ih _ (hok b t' hb).2⟩, fun e he => ih _ (herror e he)⟩

/-- What holds at the start and is stable under `R` holds at the end. -/
theorem Ensures.frame [Std.Refl R] {J : S → Prop} (hJ : ∀ t t', J t → R t t' → J t')
    {p : Prog C ε α} (hp : Ensures h A R Q p s) (hs : J s) :
    Ensures h A R (fun r t => Q r t ∧ J t) p s := by
  induction p generalizing s with
  | ret a => exact fun t ht => ⟨hp t ht, hJ s t hs ht⟩
  | raise e => exact fun t ht => ⟨hp t ht, hJ s t hs ht⟩
  | cmd c next ih =>
      intro t ht hA
      obtain ⟨hok, herror⟩ := hp t ht hA
      have ht' := hJ s t hs ht
      refine ⟨fun b t' hb => ⟨(hok b t' hb).1, ?_⟩, fun e he => ih _ (herror e he) ht'⟩
      exact ih _ (hok b t' hb).2 (hJ t t' ht' (hok b t' hb).1)

/-! ### The rules for the constructs -/

theorem ensures_ret {a : α} (hQ : ∀ t, R s t → Q (.ok a) t) : Ensures h A R Q (pure a) s := hQ

theorem ensures_raise {e : ε} (hQ : ∀ t, R s t → Q (.error e) t) : Ensures h A R Q (raise e) s := hQ

/-- **Sequencing.** -/
theorem Ensures.bind [Std.Refl R] {Q' : Except ε β → S → Prop} {p : Prog C ε α} {k : α → Prog C ε β}
    (hp : Ensures h A R Q p s) (hk : ∀ a t, Q (.ok a) t → Ensures h A R Q' (k a) t)
    (herror : ∀ e t, Q (.error e) t → Q' (.error e) t) : Ensures h A R Q' (p >>= k) s := by
  show Ensures h A R Q' (p.bind k) s
  induction p generalizing s with
  | ret a => exact hk a s (hp s (refl_of R s))
  | raise e => exact fun t ht => herror e t (hp t ht)
  | cmd c next ih =>
      intro t ht hA
      obtain ⟨hok, hfail⟩ := hp t ht hA
      exact ⟨fun b t' hb => ⟨(hok b t' hb).1, ih _ (hok b t' hb).2⟩, fun e he => ih _ (hfail e he)⟩

/-- One command. -/
theorem ensures_call {c : C α}
    (hok : ∀ t, R s t → A α c t = true → ∀ a t', h α c t = .ok (a, t') →
      R t t' ∧ ∀ u, R t' u → Q (.ok a) u)
    (herror : ∀ t, R s t → A α c t = true → ∀ e, h α c t = .error e → ∀ u, R t u → Q (.error e) u) :
    Ensures h A R Q (call c) s := by
  intro t ht hA
  exact ⟨hok t ht hA, herror t ht hA⟩

/-- **A pipeline** of commands that succeed keeps an assertion `J` on the replies it has and the
commands it has left. -/
theorem ensures_pipeline [Std.Refl R] [IsTrans S R] (J : List β → List (C β) → S → Prop)
    (hrely : ∀ bs cs t t', J bs cs t → R t t' → J bs cs t')
    (hcmd : ∀ bs c cs t, J bs (c :: cs) t → A β c t = true →
      ∃ b t', h β c t = .ok (b, t') ∧ R t t' ∧ J (bs ++ [b]) cs t')
    {l : List β} {cs : List (C β)} (hJ : J l cs s) :
    Ensures h A R (fun r t => ∃ rest, r = .ok rest ∧ J (l ++ rest) [] t) (pipeline cs) s := by
  induction cs generalizing l s with
  | nil =>
      intro t ht
      exact ⟨[], rfl, by simpa using hrely l [] s t hJ ht⟩
  | cons c cs ih =>
      intro t ht hA
      obtain ⟨b, t', hb, hR, hJ'⟩ := hcmd l c cs t (hrely l (c :: cs) s t hJ ht) hA
      constructor
      · intro b' t'' hb'
        obtain ⟨rfl, rfl⟩ : b = b' ∧ t' = t'' := by simpa [hb] using hb'
        refine ⟨hR, (ih hJ').bind ?_ ?_⟩
        · rintro rest u ⟨rest', hrest, hu⟩ v hv
          obtain rfl : rest = rest' := Except.ok.inj hrest
          refine ⟨b :: rest, rfl, ?_⟩
          rw [List.append_cons]
          exact hrely _ _ u v hu hv
        · rintro e u ⟨rest, hrest, -⟩
          cases hrest
      · intro e he
        rw [hb] at he
        cases he

/-- A pipeline of writes: the assertion is on the commands left. -/
theorem ensures_writes [Std.Refl R] [IsTrans S R] (J : List (C Unit) → S → Prop)
    (hrely : ∀ cs t t', J cs t → R t t' → J cs t')
    (hcmd : ∀ c cs t, J (c :: cs) t → A Unit c t = true →
      ∃ t', h Unit c t = .ok ((), t') ∧ R t t' ∧ J cs t')
    {cs : List (C Unit)} (hJ : J cs s) :
    Ensures h A R (fun r t => (∃ rest, r = .ok rest) ∧ J [] t) (pipeline cs) s := by
  refine (ensures_pipeline (fun _ cs t => J cs t) (fun _ => hrely) ?_ (l := []) hJ).mono ?_
  · intro _ c cs t hJt hA
    obtain ⟨t', ht', hR, hJ'⟩ := hcmd c cs t hJt hA
    exact ⟨(), t', ht', hR, hJ'⟩
  · rintro r t ⟨rest, rfl, hJt⟩
    exact ⟨⟨rest, rfl⟩, hJt⟩

/-! ### Harmless threads -/

/-- Every command a program may issue satisfies `P`. -/
def Only (P : (β : Type) → C β → Prop) : Prog C ε α → Prop
  | ret _ => True
  | raise _ => True
  | cmd c next => P _ c ∧ ∀ r, (next r).Only P

variable {P : (β : Type) → C β → Prop}

theorem only_call {c : C α} (hc : P α c) : (call c : Prog C ε α).Only P := by
  refine ⟨hc, fun r => ?_⟩
  cases r <;> exact trivial

theorem Only.bind {p : Prog C ε α} {k : α → Prog C ε β} (hp : p.Only P) (hk : ∀ a, (k a).Only P) :
    (p >>= k).Only P := by
  show (p.bind k).Only P
  induction p with
  | ret a => exact hk a
  | raise e => exact trivial
  | cmd c next ih => exact ⟨hp.1, fun r => ih r (hp.2 r)⟩

theorem Only.tryFinally {p : Prog C ε α} {fin : Prog C ε Unit} (hp : p.Only P) (hfin : fin.Only P) :
    (p.tryFinally fin).Only P := by
  induction p with
  | ret a => exact hfin.bind fun _ => trivial
  | raise e => exact hfin.bind fun _ => trivial
  | cmd c next ih => exact ⟨hp.1, fun r => ih r (hp.2 r)⟩

theorem only_pipeline {cs : List (C β)} (hcs : ∀ c ∈ cs, P β c) :
    (pipeline cs : Prog C ε (List β)).Only P := by
  induction cs with
  | nil => exact trivial
  | cons c cs ih =>
      refine Only.bind (only_call (hcs c List.mem_cons_self)) fun b => ?_
      exact Only.bind (ih fun d hd => hcs d (List.mem_cons_of_mem c hd)) fun bs => trivial

/-- Commands that keep to `R` whenever they are issued make a thread that does. -/
theorem ensures_of_only
    (hstep : ∀ (β : Type) (c : C β) t b t', P β c → A β c t = true → h β c t = .ok (b, t') → R t t')
    {p : Prog C ε α} (hp : p.Only P) : Ensures h A R (fun _ _ => True) p s := by
  induction p generalizing s with
  | ret a => exact fun _ _ => trivial
  | raise e => exact fun _ _ => trivial
  | cmd c next ih =>
      intro t _ hA
      exact ⟨fun b t' hb => ⟨hstep _ c t b t' hp.1 hA hb, ih _ (hp.2 _)⟩, fun e _ => ih _ (hp.2 _)⟩

end Prog

/-! ## The pool -/

namespace Pool

variable {h : Handler C ε S} {A : (β : Type) → C β → S → Bool} {R : S → S → Prop}
  {Q : Nat → Except ε α → S → Prop} {start final p p' : Pool C ε S α}

/-- Every thread satisfies its assertion. -/
def Ensured (h : Handler C ε S) (A : (β : Type) → C β → S → Bool) (R : S → S → Prop)
    (Q : Nat → Except ε α → S → Prop) (p : Pool C ε S α) : Prop :=
  ∀ i (q : Prog C ε α), p.threads[i]? = some q → q.Ensures h A R (Q i) p.state

/-- A step whose command meets the condition keeps all assertions and moves along `R`. -/
theorem Ensured.step [Std.Refl R] [IsTrans S R] (hp : Ensured h A R Q p) {i : Nat}
    (hA : ∀ q, p.threads[i]? = some q → q.issues A p.state = true) (hstep : step h i p = some p') :
    R p.state p'.state ∧ Ensured h A R Q p' := by
  obtain ⟨β, c, next, hi, hcase⟩ := step_cases hstep
  obtain ⟨hok, herror⟩ := hp i _ hi p.state (refl_of R p.state) (hA _ hi)
  -- the thread that moved goes on from its next command; the others rely on `R`
  have hothers : ∀ (q' : Prog C ε α) (s' : S), R p.state s' → q'.Ensures h A R (Q i) s' →
      Ensured h A R Q ⟨p.threads.set i q', s'⟩ := by
    intro q' s' hR hq' j q hj
    rw [List.getElem?_set] at hj
    split at hj
    case isTrue hij =>
      subst hij
      split at hj
      case isTrue =>
        obtain rfl : q' = q := Option.some.inj hj
        exact hq'
      case isFalse => cases hj
    case isFalse => exact (hp j q hj).rely hR
  obtain ⟨b, s', hb, rfl⟩ | ⟨e, he, rfl⟩ := hcase
  · exact ⟨(hok b s' hb).1, hothers _ _ (hok b s' hb).1 (hok b s' hb).2⟩
  · exact ⟨refl_of R _, hothers _ _ (refl_of R _) (herror e he)⟩

/-- **The rule for a pool.** Threads that satisfy the logic satisfy it together, along every schedule
whose commands meet the condition. -/
theorem ensures_of_meets [Std.Refl R] [IsTrans S R] {schedule : List Nat}
    (hstart : Ensured h A R Q start) (hmeets : Meets h A start schedule)
    (hrun : exec (step h) schedule start = some final) :
    R start.state final.state ∧ Ensured h A R Q final := by
  induction schedule generalizing start with
  | nil =>
      obtain rfl : start = final := Option.some.inj hrun
      exact ⟨refl_of R _, hstart⟩
  | cons i schedule ih =>
      obtain ⟨p, hp, hrest⟩ := exec_cons_eq_some.mp hrun
      obtain ⟨hR, hEnsured⟩ := hstart.step hmeets.cons.1 hp
      obtain ⟨hR', hfinal⟩ := ih hEnsured (hmeets.cons.2 p hp) hrest
      exact ⟨trans_of R hR hR', hfinal⟩

/-- What a thread that has ended ensures. -/
theorem Ensured.ended [Std.Refl R] (hp : Ensured h A R Q p) {i : Nat} {r : Except ε α}
    (hi : p.outcome i = some r) : Q i r p.state := by
  obtain ⟨q, hq, hr⟩ := Option.bind_eq_some_iff.mp hi
  have hEnsures := hp i q hq
  cases q with
  | ret a =>
      obtain rfl := Option.some.inj hr
      exact hEnsures _ (refl_of R _)
  | raise e =>
      obtain rfl := Option.some.inj hr
      exact hEnsures _ (refl_of R _)
  | cmd c next => cases hr

end Pool

/-! ## Notes -/

/-- The handler that also keeps notes of the commands issued. -/
def noting {G : Type} (h : Handler C ε S) (note : (β : Type) → C β → G → G) :
    Handler C ε (S × G) :=
  fun β c s => (h β c s.1).map fun r => (r.1, (r.2, note β c s.2))

section

variable {G : Type} {h : Handler C ε S} {note : (β : Type) → C β → G → G}

theorem noting_ok {c : C β} {s : S × G} {b : β} {s' : S × G} :
    noting h note β c s = .ok (b, s') ↔ h β c s.1 = .ok (b, s'.1) ∧ s'.2 = note β c s.2 := by
  unfold noting
  cases h β c s.1 with
  | error e => simp [Except.map]
  | ok r =>
      obtain ⟨b', t⟩ := r
      obtain ⟨t', n'⟩ := s'
      simp only [Except.map, Except.ok.injEq, Prod.mk.injEq]
      grind

theorem noting_error {c : C β} {s : S × G} {e : ε} :
    noting h note β c s = .error e ↔ h β c s.1 = .error e := by
  unfold noting
  cases h β c s.1 <;> simp [Except.map]

/-- The pool without the notes. -/
def Pool.forget (p : Pool C ε (S × G) α) : Pool C ε S α := ⟨p.threads, p.state.1⟩

/-- Notes change no step. -/
theorem step_forget (i : Nat) (p : Pool C ε (S × G) α) :
    Pool.step h i p.forget = (Pool.step (noting h note) i p).map Pool.forget := by
  unfold Pool.step Pool.forget noting
  cases p.threads[i]? with
  | none => rfl
  | some q =>
      cases q with
      | ret a => rfl
      | raise e => rfl
      | cmd c next =>
          dsimp only
          cases h _ c p.state.1 <;> rfl

/-- **Notes change no run.** -/
theorem exec_forget (schedule : List Nat) (p : Pool C ε (S × G) α) :
    exec (Pool.step h) schedule p.forget =
      (exec (Pool.step (noting h note)) schedule p).map Pool.forget := by
  induction schedule generalizing p with
  | nil => rfl
  | cons i schedule ih =>
      simp only [exec]
      rw [step_forget i p, Option.bind_map]
      cases Pool.step (noting h note) i p with
      | none => rfl
      | some p' => exact ih p'

end

end HighLoad
