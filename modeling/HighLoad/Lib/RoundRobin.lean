/-
# HighLoad.Lib.RoundRobin — walking a list in turns

Asking for the next element again and again, and starting over at the end, visits the elements of a list
in turns. After any number of turns each has had its even share, and the first ones one more
(`count_rounds`).
-/
import Mathlib.Data.Int.CardIntervalMod
import Mathlib.Data.List.Nodup

namespace HighLoad.RoundRobin

variable {α : Type*}

/-- Whose turn number `k` is. -/
def turn (l : List α) (k : Nat) : Option α := l[k % l.length]?

/-- The first `m` turns. -/
def rounds (l : List α) (m : Nat) : List α := (List.range m).filterMap (turn l)

variable {l : List α} {a : α} {i k m : Nat}

theorem exists_turn (h : l ≠ []) (k : Nat) : ∃ a, turn l k = some a :=
  ⟨_, List.getElem?_eq_getElem (Nat.mod_lt k (List.length_pos_iff.mpr h))⟩

theorem rounds_succ (h : turn l m = some a) : rounds l (m + 1) = rounds l m ++ [a] := by
  rw [rounds, List.range_succ, List.filterMap_append, List.filterMap_cons_some h]
  rfl

/-- Where no element repeats, it is the place that decides whose turn it is. -/
theorem turn_eq_some_iff (hnodup : l.Nodup) (hi : l[i]? = some a) : turn l k = some a ↔ k % l.length = i := by
  obtain ⟨hlt, -⟩ := List.getElem?_eq_some_iff.mp hi
  have hk : k % l.length < l.length := Nat.mod_lt k (Nat.lt_of_le_of_lt (Nat.zero_le i) hlt)
  unfold turn
  rw [← hi]
  exact List.getElem?_inj hk hnodup

/-- **Turns are fair.** -/
theorem count_rounds [DecidableEq α] (hnodup : l.Nodup) (hi : l[i]? = some a) (m : Nat) :
    (rounds l m).count a = m / l.length + if i < m % l.length then 1 else 0 := by
  obtain ⟨hlt, -⟩ := List.getElem?_eq_some_iff.mp hi
  have hpos : 0 < l.length := Nat.lt_of_le_of_lt (Nat.zero_le i) hlt
  have hcount : (rounds l m).count a = Nat.count (· ≡ i [MOD l.length]) m := by
    induction m with
    | zero => rfl
    | succ m ih =>
        obtain ⟨b, hb⟩ := exists_turn (List.length_pos_iff.mp hpos) m
        have hturn : b = a ↔ m ≡ i [MOD l.length] := by
          rw [Nat.ModEq, Nat.mod_eq_of_lt hlt, ← turn_eq_some_iff hnodup hi, hb, Option.some_inj]
        rw [rounds_succ hb, List.count_append, Nat.count_succ, ih, List.count_singleton]
        simp only [beq_iff_eq, hturn]
  rw [hcount, Nat.count_modEq_card m hpos, Nat.mod_eq_of_lt hlt]

end HighLoad.RoundRobin
