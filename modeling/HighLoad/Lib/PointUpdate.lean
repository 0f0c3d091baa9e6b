/-
# HighLoad.Lib.PointUpdate — writing several keys of a map

A map from keys to values that is updated at one key after the other, as a list of writes to a
key-value store does. Where the keys are distinct, each key ends with the value written to it; where
the value depends on the key alone, repetitions do not matter.
-/
import Mathlib.Data.List.Nodup
import Mathlib.Logic.Function.Basic

namespace HighLoad.PointUpdate

variable {ι α β : Type*} [DecidableEq α]

/-- Write `val i` under `key i`, for every `i` of a list. -/
def writeAll (key : ι → α) (val : ι → β) (l : List ι) (m : α → β) : α → β :=
  l.foldl (fun m i => Function.update m (key i) (val i)) m

variable {key : ι → α} {val : ι → β} {l : List ι} {m : α → β} {a : α}

@[simp] theorem writeAll_nil : writeAll key val [] m = m := rfl

theorem writeAll_cons (i : ι) : writeAll key val (i :: l) m
    = writeAll key val l (Function.update m (key i) (val i)) := rfl

/-- A key that is not written keeps its value. -/
theorem writeAll_of_not_mem (h : ∀ i ∈ l, key i ≠ a) : writeAll key val l m a = m a := by
  induction l generalizing m with
  | nil => rfl
  | cons i l ih =>
      rw [writeAll_cons, ih fun j hj => h j (List.mem_cons_of_mem i hj),
        Function.update_of_ne (Ne.symm (h i List.mem_cons_self))]

/-- **A key that is written once has the value written to it.** -/
theorem writeAll_of_mem (hl : (l.map key).Nodup) {i : ι} (hi : i ∈ l) :
    writeAll key val l m (key i) = val i := by
  induction l generalizing m with
  | nil => exact absurd hi List.not_mem_nil
  | cons j l ih =>
      rw [List.map_cons, List.nodup_cons] at hl
      rw [writeAll_cons]
      rcases List.mem_cons.mp hi with rfl | hi
      · have hnot : ∀ k ∈ l, key k ≠ key i := by
          intro k hk heq
          exact hl.1 (heq ▸ List.mem_map_of_mem hk)
        rw [writeAll_of_not_mem hnot, Function.update_self]
      · exact ih hl.2 hi

/-- When the value is a function of the key, every key of the list has its value. -/
theorem writeAll_eq_ite {f : α → β} {l : List α} :
    writeAll id f l m a = if a ∈ l then f a else m a := by
  induction l generalizing m with
  | nil => rfl
  | cons b l ih =>
      rw [writeAll_cons, ih]
      by_cases hl : a ∈ l
      · rw [if_pos hl, if_pos (List.mem_cons_of_mem b hl)]
      · rw [if_neg hl]
        by_cases hab : a = b
        · subst hab
          rw [if_pos List.mem_cons_self]
          exact Function.update_self a (f a) m
        · have hne : a ∉ b :: l := by
            rw [List.mem_cons, not_or]
            exact ⟨hab, hl⟩
          rw [if_neg hne]
          exact Function.update_of_ne hab (f b) m

end HighLoad.PointUpdate
