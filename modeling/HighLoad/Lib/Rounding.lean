/-
# HighLoad.Lib.Rounding — rounding to `p` binary digits

What a floating-point operation does to its exact result while the exponent is in range: the nearest
multiple of the last place, the even one of two. Rounding keeps the order (`roundTo_mono`), moves a number
by half a last place at most (`abs_roundTo_sub_le`), and so keeps apart what lies further apart than one
last place (`roundTo_lt_roundTo`).
-/
import Mathlib.Algebra.Group.Int.Even
import Mathlib.Algebra.Order.Floor.Ring
import Mathlib.Data.Int.Log
import Mathlib.Data.Rat.Floor
import Mathlib.Tactic.Linarith
import Mathlib.Tactic.Ring

namespace HighLoad.Rounding

variable {K : Type*} [Field K] [LinearOrder K] [FloorRing K]

/-! ## To an integer -/

/-- The nearest integer, the even one of two. -/
def roundEven (x : K) : ℤ :=
  if 2 * (x - ⌊x⌋) < 1 then ⌊x⌋
  else if 1 < 2 * (x - ⌊x⌋) then ⌊x⌋ + 1
  else if Even ⌊x⌋ then ⌊x⌋ else ⌊x⌋ + 1

theorem floor_le_roundEven (x : K) : ⌊x⌋ ≤ roundEven x := by
  unfold roundEven
  split_ifs <;> omega

theorem roundEven_le (x : K) : roundEven x ≤ ⌊x⌋ + 1 := by
  unfold roundEven
  split_ifs <;> omega

variable [IsStrictOrderedRing K]

@[simp] theorem roundEven_intCast (n : ℤ) : roundEven (n : K) = n := by
  unfold roundEven
  rw [Int.floor_intCast, if_pos (by simp)]

/-- At most one half is lost. -/
theorem abs_roundEven_sub_le (x : K) : |(roundEven x : K) - x| ≤ 1 / 2 := by
  have hlow := Int.floor_le x
  have hhigh := Int.lt_floor_add_one x
  unfold roundEven
  rw [abs_le]
  split_ifs <;> push_cast <;> constructor <;> linarith

theorem roundEven_mono {x y : K} (h : x ≤ y) : roundEven x ≤ roundEven y := by
  rcases (Int.floor_mono h).lt_or_eq with hfloor | hfloor
  · exact ((roundEven_le x).trans hfloor).trans (floor_le_roundEven y)
  · -- within one unit it is the fraction that decides
    unfold roundEven
    rw [← hfloor]
    split_ifs <;> first | omega | (exfalso; linarith)

theorem roundEven_neg (x : K) : roundEven (-x) = -roundEven x := by
  rcases (Int.floor_le x).lt_or_eq with hfraction | hinteger
  · have hfloor : ⌊-x⌋ = -⌊x⌋ - 1 := by
      rw [Int.floor_eq_iff]
      push_cast
      constructor
      · linarith [Int.lt_floor_add_one x]
      · linarith
    have heven : Even (-⌊x⌋ - 1) ↔ ¬ Even ⌊x⌋ := by
      rw [Int.even_sub_one, even_neg]
    -- one fraction is below one half where the other is above, and of two halves one floor is even
    unfold roundEven
    rw [hfloor]
    push_cast
    split_ifs <;>
      first | omega | (exfalso; linarith) | (exfalso; tauto)
  · rw [← hinteger, ← Int.cast_neg, roundEven_intCast, roundEven_intCast]

/-! ## To `p` digits -/

/-- The exponent of the last of `p` binary digits of a number. -/
def lastPlace (p : ℕ) (x : K) : ℤ := Int.log 2 |x| + 1 - p

/-- The number rounded to `p` binary digits. -/
def roundTo (p : ℕ) (x : K) : K := roundEven (x / 2 ^ lastPlace p x) * 2 ^ lastPlace p x

variable {p : ℕ} {x y : K}

theorem two_zpow_pos (e : ℤ) : (0 : K) < 2 ^ e := zpow_pos two_pos e

@[simp] theorem roundTo_zero : roundTo p (0 : K) = 0 := by
  unfold roundTo
  rw [zero_div, ← Int.cast_zero, roundEven_intCast, Int.cast_zero, zero_mul]

theorem roundTo_neg (x : K) : roundTo p (-x) = -roundTo p x := by
  unfold roundTo lastPlace
  rw [abs_neg, neg_div, roundEven_neg, Int.cast_neg, neg_mul]

theorem lt_two_zpow (x : K) : |x| < 2 ^ (Int.log 2 |x| + 1) := by
  have h := Int.lt_zpow_succ_log_self (R := K) one_lt_two |x|
  rwa [Nat.cast_ofNat] at h

theorem two_zpow_le (hx : 0 < x) : (2 : K) ^ Int.log 2 |x| ≤ x := by
  have h := Int.zpow_log_le_self (R := K) one_lt_two (abs_pos.mpr hx.ne')
  rw [Nat.cast_ofNat] at h
  exact h.trans_eq (abs_of_pos hx)

/-- A power of two within reach of the last place is a multiple of it. -/
theorem two_zpow_eq (k : ℕ) (e : ℤ) : (2 : K) ^ (e + k) = ((2 ^ k : ℤ) : K) * 2 ^ e := by
  have htwo : (2 : K) ≠ 0 := two_pos.ne'
  rw [zpow_add₀ htwo, zpow_natCast, mul_comm]
  push_cast
  rfl

/-- A number is not rounded beyond the next power of two. -/
theorem roundTo_le_two_zpow (p : ℕ) (x : K) : roundTo p x ≤ 2 ^ (Int.log 2 |x| + 1) := by
  have hpos := two_zpow_pos (K := K) (lastPlace p x)
  have hsplit : (2 : K) ^ (Int.log 2 |x| + 1) = ((2 ^ p : ℤ) : K) * 2 ^ lastPlace p x := by
    rw [← two_zpow_eq]
    unfold lastPlace
    congr 1
    omega
  have hle : x / 2 ^ lastPlace p x ≤ ((2 ^ p : ℤ) : K) := by
    rw [div_le_iff₀ hpos, ← hsplit]
    exact ((le_abs_self x).trans_lt (lt_two_zpow x)).le
  have hround := roundEven_mono hle
  rw [roundEven_intCast] at hround
  rw [hsplit]
  exact mul_le_mul_of_nonneg_right (by exact_mod_cast hround) hpos.le

/-- A positive number is not rounded below the power of two that it reaches. -/
theorem two_zpow_le_roundTo (hp : 1 ≤ p) (hx : 0 < x) : 2 ^ Int.log 2 |x| ≤ roundTo p x := by
  have hpos := two_zpow_pos (K := K) (lastPlace p x)
  have hsplit : (2 : K) ^ Int.log 2 |x| = ((2 ^ (p - 1) : ℤ) : K) * 2 ^ lastPlace p x := by
    rw [← two_zpow_eq]
    unfold lastPlace
    congr 1
    omega
  have hle : ((2 ^ (p - 1) : ℤ) : K) ≤ x / 2 ^ lastPlace p x := by
    rw [le_div_iff₀ hpos, ← hsplit]
    exact two_zpow_le hx
  have hround := roundEven_mono hle
  rw [roundEven_intCast] at hround
  rw [hsplit]
  exact mul_le_mul_of_nonneg_right (by exact_mod_cast hround) hpos.le

theorem roundTo_nonneg (hx : 0 ≤ x) : 0 ≤ roundTo p x := by
  have hpos := two_zpow_pos (K := K) (lastPlace p x)
  have hround := roundEven_mono (div_nonneg hx hpos.le)
  rw [← Int.cast_zero, roundEven_intCast] at hround
  exact mul_nonneg (by exact_mod_cast hround) hpos.le

theorem roundTo_mono_of_pos (hp : 1 ≤ p) (hx : 0 < x) (h : x ≤ y) : roundTo p x ≤ roundTo p y := by
  have hy := hx.trans_le h
  have hlog : Int.log 2 |x| ≤ Int.log 2 |y| :=
    Int.log_mono_right (abs_pos.mpr hx.ne') (by rwa [abs_of_pos hx, abs_of_pos hy])
  rcases hlog.lt_or_eq with hlt | heq
  · -- a power of two lies between the two
    calc roundTo p x ≤ 2 ^ (Int.log 2 |x| + 1) := roundTo_le_two_zpow p x
      _ ≤ 2 ^ Int.log 2 |y| := zpow_le_zpow_right₀ one_le_two hlt
      _ ≤ roundTo p y := two_zpow_le_roundTo hp hy
  · have hpos := two_zpow_pos (K := K) (lastPlace p y)
    have hplace : lastPlace p x = lastPlace p y := by
      unfold lastPlace
      rw [heq]
    unfold roundTo
    rw [hplace]
    refine mul_le_mul_of_nonneg_right ?_ hpos.le
    exact_mod_cast roundEven_mono (div_le_div_of_nonneg_right h hpos.le)

/-- **Rounding keeps the order.** -/
theorem roundTo_mono (hp : 1 ≤ p) (h : x ≤ y) : roundTo p x ≤ roundTo p y := by
  rcases lt_or_ge 0 x with hx | hx
  · exact roundTo_mono_of_pos hp hx h
  rcases lt_or_ge y 0 with hy | hy
  · have hneg := roundTo_mono_of_pos hp (neg_pos.mpr hy) (neg_le_neg h)
    rw [roundTo_neg, roundTo_neg] at hneg
    exact neg_le_neg_iff.mp hneg
  · have hneg := roundTo_nonneg (p := p) (neg_nonneg.mpr hx)
    rw [roundTo_neg] at hneg
    exact (neg_nonneg.mp hneg).trans (roundTo_nonneg hy)

/-- **Rounding moves a number by half a last place at most.** -/
theorem abs_roundTo_sub_le (p : ℕ) (x : K) : |roundTo p x - x| ≤ 2 ^ lastPlace p x / 2 := by
  have hpos := two_zpow_pos (K := K) (lastPlace p x)
  have hfactor : roundTo p x - x
      = (roundEven (x / 2 ^ lastPlace p x) - x / 2 ^ lastPlace p x) * 2 ^ lastPlace p x := by
    unfold roundTo
    rw [sub_mul, div_mul_cancel₀ _ hpos.ne']
  calc |roundTo p x - x|
      = |(roundEven (x / 2 ^ lastPlace p x) : K) - x / 2 ^ lastPlace p x| * 2 ^ lastPlace p x := by
        rw [hfactor, abs_mul, abs_of_pos hpos]
    _ ≤ 1 / 2 * 2 ^ lastPlace p x :=
        mul_le_mul_of_nonneg_right (abs_roundEven_sub_le _) hpos.le
    _ = 2 ^ lastPlace p x / 2 := by ring

/-- Below `2 ^ m` that is half of `2 ^ (m - p)`. -/
theorem abs_roundTo_sub_le_of_lt {m : ℤ} (hx : |x| < 2 ^ m) : |roundTo p x - x| ≤ 2 ^ (m - p) / 2 := by
  rcases eq_or_ne x 0 with rfl | hne
  · rw [roundTo_zero, sub_zero, abs_zero]
    exact (div_pos (two_zpow_pos _) two_pos).le
  · have hlog : Int.log 2 |x| < m := by
      refine (Int.lt_zpow_iff_log_lt one_lt_two (abs_pos.mpr hne)).mp ?_
      rwa [Nat.cast_ofNat]
    have hplace : lastPlace p x ≤ m - p := by
      unfold lastPlace
      omega
    have hle : (2 : K) ^ lastPlace p x ≤ 2 ^ (m - p) := zpow_le_zpow_right₀ one_le_two hplace
    exact (abs_roundTo_sub_le p x).trans (by linarith)

/-- **Rounding keeps apart what lies more than a last place apart.** -/
theorem roundTo_lt_roundTo {m : ℤ} (hx : |x| < 2 ^ m) (hy : |y| < 2 ^ m) (h : x + 2 ^ (m - p) < y) :
    roundTo p x < roundTo p y := by
  have hx' := abs_le.mp (abs_roundTo_sub_le_of_lt (p := p) hx)
  have hy' := abs_le.mp (abs_roundTo_sub_le_of_lt (p := p) hy)
  linarith

end HighLoad.Rounding
