/-
# HighLoad.Lib.Radix — fixed-width positional numerals, most significant digit first

`digits b w n` writes `n` in base `b` on exactly `w` places, as `int.to_bytes(w, "big")` does for
`b = 256`, and `ofDigits` reads such a numeral back, as `int.from_bytes` does. On numbers that fit
the width the two are inverse to each other, so the numeral determines the number, and numerals of
one width compare, digit by digit, as the numbers do.
-/
import Mathlib.Data.List.Lex
import Mathlib.Order.Lattice.Nat

namespace HighLoad.Radix

/-- The base-`b` numeral of `n` on `width` places, most significant digit first. Digits that do not
fit the width are dropped. -/
def digits (b : Nat) : Nat → Nat → List Nat
  | 0, _ => []
  | width + 1, n => digits b width (n / b) ++ [n % b]

/-- The value of a base-`b` numeral, most significant digit first. -/
def ofDigits (b : Nat) (ds : List Nat) : Nat :=
  ds.foldl (fun acc d => acc * b + d) 0

@[simp] theorem length_digits (b width n : Nat) : (digits b width n).length = width := by
  induction width generalizing n with
  | zero => rfl
  | succ width ih => simp [digits, ih]

theorem digits_lt {b : Nat} (hb : 0 < b) {width n d : Nat} (hd : d ∈ digits b width n) : d < b := by
  induction width generalizing n with
  | zero => simp [digits] at hd
  | succ width ih =>
      simp only [digits, List.mem_append, List.mem_singleton] at hd
      rcases hd with hd | rfl
      · exact ih hd
      · exact Nat.mod_lt n hb

theorem ofDigits_concat (b : Nat) (ds : List Nat) (d : Nat) :
    ofDigits b (ds ++ [d]) = ofDigits b ds * b + d := by
  simp [ofDigits]

/-- Reading back a numeral that fits its width gives the number it was written from. -/
theorem ofDigits_digits {b width n : Nat} (hn : n < b ^ width) :
    ofDigits b (digits b width n) = n := by
  induction width generalizing n with
  | zero =>
      have : n = 0 := by simpa using hn
      subst this
      rfl
  | succ width ih =>
      have hdiv : n / b < b ^ width := Nat.div_lt_of_lt_mul (by rwa [Nat.pow_succ'] at hn)
      rw [digits, ofDigits_concat, ih hdiv]
      exact Nat.div_add_mod' n b

/-- A numeral determines the number, for numbers that fit its width. -/
theorem digits_inj {b width m n : Nat} (hm : m < b ^ width) (hn : n < b ^ width)
    (h : digits b width m = digits b width n) : m = n := by
  rw [← ofDigits_digits hm, h, ofDigits_digits hn]

/-! ## Comparing numerals -/

/-- Lists with heads of one length compare by their heads first. -/
theorem append_lt_append_iff {α : Type*} [LinearOrder α] {xs xs' ys ys' : List α}
    (h : xs.length = xs'.length) :
    xs ++ ys < xs' ++ ys' ↔ xs < xs' ∨ (xs = xs' ∧ ys < ys') := by
  induction xs generalizing xs' with
  | nil =>
      obtain rfl : xs' = [] := List.length_eq_zero_iff.mp h.symm
      simp
  | cons x xs ih =>
      cases xs' with
      | nil => simp at h
      | cons x' xs' =>
          have hlen : xs.length = xs'.length := by simpa using h
          simp only [List.cons_append, List.cons_lt_cons_iff, ih hlen, List.cons.injEq]
          tauto

/-- Writing each element with strictly growing symbols keeps the order of lists. -/
theorem map_lt_map_iff {α β : Type*} [LinearOrder α] [LinearOrder β] {f : α → β} {xs xs' : List α}
    (hf : ∀ a ∈ xs, ∀ b ∈ xs', f a < f b ↔ a < b) (hinj : ∀ a ∈ xs, ∀ b ∈ xs', f a = f b ↔ a = b)
    (h : xs.length = xs'.length) : xs.map f < xs'.map f ↔ xs < xs' := by
  induction xs generalizing xs' with
  | nil =>
      obtain rfl : xs' = [] := List.length_eq_zero_iff.mp h.symm
      simp
  | cons x xs ih =>
      cases xs' with
      | nil => simp at h
      | cons x' xs' =>
          have hlen : xs.length = xs'.length := by simpa using h
          have hrest := ih
            (fun a ha b hb => hf a (List.mem_cons_of_mem x ha) b (List.mem_cons_of_mem x' hb))
            (fun a ha b hb => hinj a (List.mem_cons_of_mem x ha) b (List.mem_cons_of_mem x' hb)) hlen
          simp only [List.map_cons, List.cons_lt_cons_iff, hrest,
            hf x List.mem_cons_self x' List.mem_cons_self,
            hinj x List.mem_cons_self x' List.mem_cons_self]

/-- **Numerals of one width compare as their numbers.** -/
theorem digits_lt_digits_iff {b : Nat} (hb : 0 < b) {width m n : Nat} (hm : m < b ^ width)
    (hn : n < b ^ width) : digits b width m < digits b width n ↔ m < n := by
  induction width generalizing m n with
  | zero =>
      have hm0 : m = 0 := by simpa using hm
      have hn0 : n = 0 := by simpa using hn
      simp [digits, hm0, hn0]
  | succ width ih =>
      have hmd : m / b < b ^ width := Nat.div_lt_of_lt_mul (by rwa [Nat.pow_succ'] at hm)
      have hnd : n / b < b ^ width := Nat.div_lt_of_lt_mul (by rwa [Nat.pow_succ'] at hn)
      have hlen : (digits b width (m / b)).length = (digits b width (n / b)).length := by simp
      have heq : digits b width (m / b) = digits b width (n / b) ↔ m / b = n / b :=
        ⟨digits_inj hmd hnd, fun h => by rw [h]⟩
      rw [digits, digits, append_lt_append_iff hlen, ih hmd hnd, heq]
      simp only [List.cons_lt_cons_iff, List.not_lt_nil, and_false, or_false]
      have hmb := Nat.div_add_mod m b
      have hnb := Nat.div_add_mod n b
      have hmr := Nat.mod_lt m hb
      have hnr := Nat.mod_lt n hb
      constructor
      · rintro (hlt | ⟨heq, hlt⟩)
        · by_contra hle
          exact absurd (Nat.div_le_div_right (not_lt.mp hle)) (not_le.mpr hlt)
        · rw [heq] at hmb
          omega
      · intro hlt
        rcases Nat.lt_or_eq_of_le (Nat.div_le_div_right (c := b) hlt.le) with h | h
        · exact Or.inl h
        · refine Or.inr ⟨h, ?_⟩
          rw [h] at hmb
          omega

end HighLoad.Radix
