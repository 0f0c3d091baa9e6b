/-
# HighLoad.Lib.Prog — programs that issue commands to shared stores

A coroutine is a tree of commands. One command is one round trip to a store: it takes effect on the
shared state all at once and its reply, or the exception it meets, selects the rest of the program.
What runs between two commands is local to the program, so a scheduler that picks commands interleaves
programs exactly as their `await`s do. Commands are data of a signature `C`, the reply type an index;
a `Handler` gives them their meaning.

`run` is the execution without interleaving and without faults. A program is verified by rewriting
its `run` with the rule for each construct (`run_bind`, `run_call`, `run_tryFinally`); a pipeline of
commands folds their effects (`run_pipeline_writes`) or collects their replies
(`run_pipeline_reads`).
-/
import Mathlib.Logic.Function.Basic

namespace HighLoad

/-- A program over the commands `C` that returns an `α` or raises an `ε`. -/
inductive Prog (C : Type → Type) (ε α : Type) : Type 1 where
  | ret (a : α)
  | raise (e : ε)
  | cmd {β : Type} (c : C β) (next : Except ε β → Prog C ε α)

/-- The meaning of commands: a reply and the next state, or an exception and no change. -/
def Handler (C : Type → Type) (ε S : Type) : Type 1 :=
  (β : Type) → C β → S → Except ε (β × S)

namespace Prog

variable {C : Type → Type} {ε S α β : Type}

/-- Sequencing: an exception of the first program skips the second. -/
def bind : Prog C ε α → (α → Prog C ε β) → Prog C ε β
  | ret a, k => k a
  | raise e, _ => raise e
  | cmd c next, k => cmd c fun r => (next r).bind k

instance : Monad (Prog C ε) where
  pure := ret
  bind := bind

theorem pure_bind_eq (a : α) (k : α → Prog C ε β) : ((pure a : Prog C ε α) >>= k) = k a := rfl

/-- `try: p finally: fin`. -/
def tryFinally : Prog C ε α → Prog C ε Unit → Prog C ε α
  | ret a, fin => fin.bind fun _ => ret a
  | raise e, fin => fin.bind fun _ => raise e
  | cmd c next, fin => cmd c fun r => (next r).tryFinally fin

/-- Issue one command and return its reply. -/
def call (c : C β) : Prog C ε β :=
  cmd c fun r =>
    match r with
    | .ok b => ret b
    | .error e => raise e

/-- A pipeline: commands sent together, the list of their replies. Commands of other programs may
fall between two of them. -/
def pipeline : List (C β) → Prog C ε (List β)
  | [] => ret []
  | c :: cs => (call c).bind fun b => (pipeline cs).bind fun bs => ret (b :: bs)

/-- Run a program alone and without faults: its outcome and the state it leaves. -/
def run (h : Handler C ε S) : Prog C ε α → S → Except ε α × S
  | ret a, s => (.ok a, s)
  | raise e, s => (.error e, s)
  | cmd c next, s =>
      match h _ c s with
      | .ok r => (next (.ok r.1)).run h r.2
      | .error e => (next (.error e)).run h s

/-! ## The rules of `run` -/

variable {h : Handler C ε S}

@[simp] theorem run_ret (a : α) (s : S) : (ret a : Prog C ε α).run h s = (.ok a, s) := rfl

@[simp] theorem run_pure (a : α) (s : S) : (pure a : Prog C ε α).run h s = (.ok a, s) := rfl

@[simp] theorem run_raise (e : ε) (s : S) : (raise e : Prog C ε α).run h s = (.error e, s) := rfl

theorem run_call_of_ok {c : C β} {s s' : S} {b : β} (hc : h β c s = .ok (b, s')) :
    (call c).run h s = (.ok b, s') := by
  simp only [call, run, hc]

theorem run_call_of_error {c : C β} {s : S} {e : ε} (hc : h β c s = .error e) :
    (call c).run h s = (.error e, s) := by
  simp only [call, run, hc]

/-- What comes after a program continues from its outcome. -/
def proceed (h : Handler C ε S) (k : α → Prog C ε β) : Except ε α × S → Except ε β × S
  | (.ok a, s) => (k a).run h s
  | (.error e, s) => (.error e, s)

@[simp] theorem proceed_ok (k : α → Prog C ε β) (a : α) (s : S) :
    proceed h k (.ok a, s) = (k a).run h s := rfl

@[simp] theorem proceed_error (k : α → Prog C ε β) (e : ε) (s : S) :
    proceed h k (.error e, s) = (.error e, s) := rfl

/-- **Sequencing runs the first program, then the second from where it ended.** -/
theorem run_bind (p : Prog C ε α) (k : α → Prog C ε β) (s : S) :
    (p >>= k).run h s = proceed h k (p.run h s) := by
  show (p.bind k).run h s = proceed h k (p.run h s)
  induction p generalizing s with
  | ret a => rfl
  | raise e => rfl
  | cmd c next ih =>
      simp only [bind, run]
      cases h _ c s with
      | ok r => exact ih (.ok r.1) r.2
      | error e => exact ih (.error e) s

/-- The rule for a first program that returns. -/
theorem run_bind_of_ok {p : Prog C ε α} {k : α → Prog C ε β} {s s' : S} {a : α}
    (hp : p.run h s = (.ok a, s')) : (p >>= k).run h s = (k a).run h s' := by
  rw [run_bind, hp, proceed_ok]

/-- The rule for a first program that raises. -/
theorem run_bind_of_error {p : Prog C ε α} {k : α → Prog C ε β} {s s' : S} {e : ε}
    (hp : p.run h s = (.error e, s')) : (p >>= k).run h s = (.error e, s') := by
  rw [run_bind, hp, proceed_error]

/-- A `finally` block that returns leaves the outcome of the program as it was. -/
theorem run_tryFinally {fin : Prog C ε Unit} {g : S → S}
    (hfin : ∀ s, fin.run h s = (.ok (), g s)) (p : Prog C ε α) (s : S) :
    (p.tryFinally fin).run h s = ((p.run h s).1, g (p.run h s).2) := by
  induction p generalizing s with
  | ret a =>
      show (fin >>= fun _ => ret a).run h s = _
      rw [run_bind_of_ok (hfin s)]
      rfl
  | raise e =>
      show (fin >>= fun _ => raise e).run h s = _
      rw [run_bind_of_ok (hfin s)]
      rfl
  | cmd c next ih =>
      simp only [tryFinally, run]
      cases h _ c s with
      | ok r => exact ih (.ok r.1) r.2
      | error e => exact ih (.error e) s

/-- A pipeline of writes applies them one after the other. -/
theorem run_pipeline_writes {f : C Unit → S → S} {cs : List (C Unit)}
    (hcs : ∀ c ∈ cs, ∀ s, h Unit c s = .ok ((), f c s)) (s : S) :
    (pipeline cs).run h s = (.ok (cs.map fun _ => ()), cs.foldl (fun s c => f c s) s) := by
  induction cs generalizing s with
  | nil => rfl
  | cons c cs ih =>
      have hrest := ih (fun c hc => hcs c (List.mem_cons_of_mem _ hc)) (f c s)
      show (call c >>= fun b => pipeline cs >>= fun bs => ret (b :: bs)).run h s = _
      rw [run_bind_of_ok (run_call_of_ok (hcs c List.mem_cons_self s)), run_bind_of_ok hrest]
      rfl

/-- A pipeline of reads, one for each element of a list, collects their replies. -/
theorem run_pipeline_reads {ι : Type} {c : ι → C β} {r : ι → β} {s : S}
    (hc : ∀ i, h β (c i) s = .ok (r i, s)) (l : List ι) :
    (pipeline (l.map c)).run h s = (.ok (l.map r), s) := by
  induction l with
  | nil => rfl
  | cons i l ih =>
      show (call (c i) >>= fun b => pipeline (l.map c) >>= fun bs => ret (b :: bs)).run h s = _
      rw [run_bind_of_ok (run_call_of_ok (hc i)), run_bind_of_ok ih]
      rfl

end Prog

end HighLoad
