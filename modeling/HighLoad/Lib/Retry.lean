/-
# HighLoad.Lib.Retry — programs that are started again

A program that is cut off leaves the state at some point of its run (`Visits`); whoever retries it starts
from there, and may be cut off again (`Attempts`). `Along` shows what all points of a run have in common,
with a rule for each construct, and `Attempts.keeps` carries what one attempt keeps through all of
them.
-/
import HighLoad.Lib.Within
import Mathlib.Logic.Relation

namespace HighLoad

variable {C : Type → Type} {ε S α β : Type}

namespace Prog

/-- The run of the program from `s` comes through `s'`. -/
def Visits (h : Handler C ε S) : Prog C ε α → S → S → Prop
  | ret _, s, s' => s' = s
  | raise _, s, s' => s' = s
  | cmd c next, s, s' => s' = s ∨ (next (h.issue c s).1).Visits h (h.issue c s).2 s'

/-- All states of the run from `s` are in `G`. -/
def Along (h : Handler C ε S) (G : S → Prop) (p : Prog C ε α) (s : S) : Prop :=
  ∀ s', p.Visits h s s' → G s'

/-- The program was started any number of times and cut off each time. -/
def Attempts (h : Handler C ε S) (p : Prog C ε α) : S → S → Prop :=
  Relation.ReflTransGen (p.Visits h)

variable {h : Handler C ε S} {G : S → Prop} {s s' : S}

/-- Up to its first command a sequence is where its first program is, later where the second is. -/
theorem visits_bind {p : Prog C ε α} {k : α → Prog C ε β} (hv : (p >>= k).Visits h s s') :
    p.Visits h s s' ∨
      ∃ a, (p.run h s).1 = .ok a ∧ (k a).Visits h (p.run h s).2 s' := by
  change (p.bind k).Visits h s s' at hv
  induction p generalizing s with
  | ret a => exact Or.inr ⟨a, rfl, hv⟩
  | raise e => exact Or.inl hv
  | cmd c next ih =>
      rw [run_issue]
      rcases hv with hv | hv
      · exact Or.inl (Or.inl hv)
      · rcases ih _ hv with hv | hv
        · exact Or.inl (Or.inr hv)
        · exact Or.inr hv

/-- A run comes through its last state. -/
theorem visits_last (p : Prog C ε α) (s : S) : p.Visits h s (p.run h s).2 := by
  induction p generalizing s with
  | ret a => exact rfl
  | raise e => exact rfl
  | cmd c next ih =>
      rw [run_issue]
      exact Or.inr (ih _ _)

theorem Along.last {p : Prog C ε α} (hp : p.Along h G s) : G (p.run h s).2 := hp _ (visits_last p s)

theorem Along.mono {G' : S → Prop} {p : Prog C ε α} (hp : p.Along h G s) (hG : ∀ s, G s → G' s) :
    p.Along h G' s := fun s' hv => hG s' (hp s' hv)

theorem along_pure {a : α} (hs : G s) : Along h G (pure a : Prog C ε α) s := by
  rintro s' rfl
  exact hs

theorem along_call {c : C α} (hs : G s) (hc : G (h.issue c s).2) :
    Along h G (call c : Prog C ε α) s := by
  rintro s' (rfl | hv)
  · exact hs
  · cases hr : (h.issue c s).1 with
    | ok b =>
        rw [hr] at hv
        obtain rfl : s' = (h.issue c s).2 := hv
        exact hc
    | error e =>
        rw [hr] at hv
        obtain rfl : s' = (h.issue c s).2 := hv
        exact hc

theorem Along.bind {p : Prog C ε α} {k : α → Prog C ε β} (hp : p.Along h G s)
    (hk : ∀ a, (p.run h s).1 = .ok a → (k a).Along h G (p.run h s).2) : (p >>= k).Along h G s := by
  intro s' hv
  rcases visits_bind hv with hv | ⟨a, ha, hv⟩
  · exact hp s' hv
  · exact hk a ha s' hv

/-- Sequencing after a program whose run is known. -/
theorem Along.bind_of_ok {p : Prog C ε α} {k : α → Prog C ε β} {a : α} {t : S} (hp : p.Along h G s)
    (hrun : p.run h s = (.ok a, t)) (hk : (k a).Along h G t) : (p >>= k).Along h G s := by
  refine hp.bind fun a' ha => ?_
  rw [hrun] at ha ⊢
  obtain rfl := Except.ok.inj ha
  exact hk

/-- A command that reads leaves the state. -/
theorem along_read {c : C α} {b : α} (hs : G s) (hc : h _ c s = .ok (b, s)) :
    Along h G (call c : Prog C ε α) s :=
  along_call hs (by rwa [Handler.issue_of_ok hc])

/-- The states of a pipeline are those behind its prefixes. -/
theorem along_pipeline {f : C α → S → S} {cs : List (C α)}
    (hcs : ∀ c ∈ cs, ∀ s, (h.issue c s).2 = f c s)
    (hG : ∀ pre, pre <+: cs → G (pre.foldl (fun s c => f c s) s)) :
    Along h G (pipeline cs : Prog C ε (List α)) s := by
  induction cs generalizing s with
  | nil => exact along_pure (hG [] (List.prefix_refl _))
  | cons c cs ih =>
      have hcons : ∀ pre, pre <+: cs → G (pre.foldl (fun s c => f c s) (f c s)) := fun pre hpre =>
        hG (c :: pre) (List.cons_prefix_cons.mpr ⟨rfl, hpre⟩)
      have hfirst : (h.issue c s).2 = f c s := hcs c List.mem_cons_self s
      have hrest := ih (fun d hd => hcs d (List.mem_cons_of_mem c hd)) hcons
      rintro s' (rfl | hv)
      · exact hG [] List.nil_prefix
      · rw [hfirst] at hv
        cases hr : (h.issue c s).1 with
        | error e =>
            rw [hr] at hv
            obtain rfl : s' = f c s := hv
            exact hcons [] List.nil_prefix
        | ok b =>
            rw [hr] at hv
            have hlast : ((pipeline cs : Prog C ε (List α)) >>= fun bs => pure (b :: bs)).Along h G (f c s) :=
              hrest.bind fun bs _ => along_pure hrest.last
            exact hlast s' hv

/-- A pipeline of blocks: what holds between two blocks holds behind every prefix, if it holds inside
each block. -/
theorem foldl_blocks {ι : Type} {f : S → C α → S} {block : ι → List (C α)} {is : List ι}
    (hblock : ∀ i ∈ is, ∀ s, G s → ∀ pre, pre <+: block i → G (pre.foldl f s)) (hs : G s)
    {pre : List (C α)} (hpre : pre <+: is.flatMap block) : G (pre.foldl f s) := by
  induction is generalizing s pre with
  | nil =>
      obtain rfl : pre = [] := List.prefix_nil.mp hpre
      exact hs
  | cons i is ih =>
      rw [List.flatMap_cons] at hpre
      rcases List.prefix_or_prefix_of_prefix hpre (List.prefix_append (block i) _) with hin | ⟨rest, rfl⟩
      · exact hblock i List.mem_cons_self s hs pre hin
      · rw [List.foldl_append]
        exact ih (fun j hj => hblock j (List.mem_cons_of_mem i hj))
          (hblock i List.mem_cons_self s hs _ (List.prefix_refl _))
          ((List.prefix_append_right_inj _).mp hpre)

/-- What one attempt keeps, all of them keep. -/
theorem Attempts.keeps {p : Prog C ε α} {R : S → S → Prop} (hrefl : ∀ s, R s s)
    (htrans : ∀ s t u, R s t → R t u → R s u) (hp : ∀ s, p.Along h (R s) s)
    (ha : p.Attempts h s s') : R s s' := by
  induction ha with
  | refl => exact hrefl s
  | tail _ hv ih => exact htrans _ _ _ ih (hp _ _ hv)

end Prog

end HighLoad
