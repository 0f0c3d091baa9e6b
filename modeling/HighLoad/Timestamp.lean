/-
# HighLoad.Timestamp — the scores of the feeds

`created_at.timestamp()` of a naive `datetime` in a process whose time zone is UTC: the seconds since
1970 by the Gregorian calendar, and the microseconds, added as doubles. A score never contradicts the
order of the times (`score_mono`). It tells times apart that lie further apart than the doubles around them
(`score_lt_of_near`): all times up to March 2242 (`score_lt_of_resolved`), and later ones with 31
microseconds between them (`score_lt_of_gap`). On the first day of the calendar there is none
(`timestamp_eq_ok_iff`).
-/
import HighLoad.Base
import HighLoad.Lib.Rounding
import Mathlib.Tactic.IntervalCases
import Mathlib.Tactic.NormNum

namespace HighLoad

open Rounding

/-! ## The calendar -/

/-- `_days_before_year(year)`. -/
def daysBeforeYear (year : Nat) : Nat :=
  (year - 1) * 365 + (year - 1) / 4 - (year - 1) / 100 + (year - 1) / 400

/-- `_is_leap(year)`, as a number of days. -/
def leapDay (year : Nat) : Nat := if year % 4 = 0 ∧ (year % 100 ≠ 0 ∨ year % 400 = 0) then 1 else 0

/-- `_days_before_month(year, month)`. -/
def daysBeforeMonth (year month : Nat) : Nat :=
  [0, 0, 31, 59, 90, 120, 151, 181, 212, 243, 273, 304, 334].getD month 0
    + if 2 < month then leapDay year else 0

/-- A year has 365 days, a leap year 366. -/
theorem daysBeforeYear_succ {year : Nat} (h : 1 ≤ year) :
    daysBeforeYear (year + 1) = daysBeforeYear year + 365 + leapDay year := by
  obtain ⟨y, rfl⟩ := Nat.exists_eq_add_of_le' h
  have hle : y / 100 ≤ y / 4 := Nat.div_le_div_left (by decide) (by decide)
  have hcentury : 100 ∣ y + 1 → 4 ∣ y + 1 := (by decide : 4 ∣ 100).trans
  have hfourth : 400 ∣ y + 1 → 100 ∣ y + 1 := (by decide : 100 ∣ 400).trans
  unfold daysBeforeYear leapDay
  -- a quotient grows by one when the year that ends is a multiple of its divisor
  simp only [Nat.add_sub_cancel, Nat.succ_div, ← Nat.dvd_iff_mod_eq_zero, ne_eq]
  generalize y / 4 = fours at *
  generalize y / 100 = centuries at *
  split_ifs <;> omega

theorem daysBeforeYear_mono {year year' : Nat} (hpos : 1 ≤ year) (h : year ≤ year') :
    daysBeforeYear year ≤ daysBeforeYear year' := by
  induction year', h using Nat.le_induction with
  | base => exact le_rfl
  | succ next hle ih =>
      have hsucc := daysBeforeYear_succ (hpos.trans hle)
      omega

/-- A month ends where the next one begins. -/
theorem daysBeforeMonth_succ (year : Nat) {month : Nat} (h : 1 ≤ month ∧ month < 12) :
    daysBeforeMonth year (month + 1) = daysBeforeMonth year month + daysInMonth year month := by
  obtain ⟨hlow, hhigh⟩ := h
  unfold daysBeforeMonth daysInMonth leapDay
  interval_cases month <;> simp <;> split_ifs <;> rfl

theorem daysBeforeMonth_mono (year : Nat) {month month' : Nat} (hpos : 1 ≤ month) (h : month ≤ month')
    (hlast : month' ≤ 12) : daysBeforeMonth year month ≤ daysBeforeMonth year month' := by
  induction month', h using Nat.le_induction with
  | base => exact le_rfl
  | succ next hle ih =>
      have hsucc := daysBeforeMonth_succ year ⟨hpos.trans hle, hlast⟩
      have hbefore := ih (Nat.le_of_succ_le hlast)
      omega

/-- The year ends with December. -/
theorem daysBeforeMonth_le (year : Nat) {month : Nat} (h : 1 ≤ month ∧ month ≤ 12) :
    daysBeforeMonth year month + daysInMonth year month ≤ 365 + leapDay year := by
  have hmono := daysBeforeMonth_mono year h.1 h.2 le_rfl
  have hdecember : daysBeforeMonth year 12 = 334 + leapDay year := rfl
  rcases h.2.lt_or_eq with hlt | rfl
  · have hsucc := daysBeforeMonth_succ year ⟨h.1, hlt⟩
    have hnext := daysBeforeMonth_mono year (Nat.le_add_left 1 month) hlt le_rfl
    omega
  · have hdays : daysInMonth year 12 = 31 := rfl
    omega

namespace DateTime

/-- `toordinal()`: the first day of year 1 is day 1. -/
def toordinal (t : DateTime) : Nat :=
  daysBeforeYear t.year + daysBeforeMonth t.year t.month + t.day

/-- The days of two dates are ordered as the dates. -/
theorem toordinal_lt {s t : DateTime}
    (h : s.year < t.year ∨ s.year = t.year ∧
      (s.month < t.month ∨ s.month = t.month ∧ s.day < t.day)) : s.toordinal < t.toordinal := by
  unfold toordinal
  rcases h with hyear | ⟨hyear, hmonth | ⟨hmonth, hday⟩⟩
  · have hend := daysBeforeMonth_le s.year s.month_range
    have hnext := daysBeforeYear_succ s.year_range.1
    have hlater := daysBeforeYear_mono (Nat.le_add_left 1 s.year) hyear
    have hday := s.day_range
    have hday' := t.day_range
    omega
  · have hnext := daysBeforeMonth_succ s.year
      ⟨s.month_range.1, hmonth.trans_le t.month_range.2⟩
    have hlater := daysBeforeMonth_mono s.year (Nat.le_add_left 1 s.month) hmonth
      t.month_range.2
    have hday := s.day_range
    have hday' := t.day_range
    rw [← hyear]
    omega
  · rw [hyear, hmonth]
    omega

/-- The seconds since the beginning of 1970, in UTC. -/
def seconds (t : DateTime) : ℤ :=
  (((t.toordinal : ℤ) - 719163) * 24 + t.hour) * 3600 + t.minute * 60 + t.second

/-- The microseconds since the beginning of 1970. -/
def micros (t : DateTime) : ℤ := t.seconds * 1000000 + t.microsecond

theorem micros_lt {s t : DateTime} (h : s < t) : s.micros < t.micros := by
  have hticks : s.ticks < t.ticks := h
  unfold ticks at hticks
  have hday := s.day_range.2.trans (daysInMonth_le _ _)
  have hday' := t.day_range.2.trans (daysInMonth_le _ _)
  have hbounds := And.intro s.month_range (And.intro s.hour_lt (And.intro s.minute_lt
    (And.intro s.second_lt s.microsecond_lt)))
  have hbounds' := And.intro t.month_range (And.intro t.hour_lt (And.intro t.minute_lt
    (And.intro t.second_lt t.microsecond_lt)))
  -- either the date is an earlier one, or it is the same and the time of day is earlier
  have hcases : (s.year < t.year ∨ s.year = t.year ∧
      (s.month < t.month ∨ s.month = t.month ∧ s.day < t.day)) ∨
      ((s.year = t.year ∧ s.month = t.month ∧ s.day = t.day) ∧
        ((s.hour * 60 + s.minute) * 60 + s.second) * 1000000 + s.microsecond
          < ((t.hour * 60 + t.minute) * 60 + t.second) * 1000000 + t.microsecond) := by
    omega
  unfold micros seconds
  rcases hcases with hdate | ⟨⟨hyear, hmonth, hday⟩, htime⟩
  · have hordinal := toordinal_lt hdate
    omega
  · have hordinal : s.toordinal = t.toordinal := by
      unfold toordinal
      rw [hyear, hmonth, hday]
    rw [hordinal]
    omega

/-- **The order of the fields is the order in time.** -/
theorem lt_iff_micros {s t : DateTime} : s < t ↔ s.micros < t.micros := by
  refine ⟨micros_lt, fun h => ?_⟩
  by_contra hnot
  rcases (not_lt.mp hnot).lt_or_eq with hlt | rfl
  · exact absurd (micros_lt hlt) (by omega)
  · exact absurd h (lt_irrefl _)

/-! ## Scores -/

/-- The nearest double; no number here is so large or so small that the exponent were out of range. -/
def double (x : ℚ) : ℚ := roundTo 53 x

/-- The fraction of a second, as a double. -/
def fraction (t : DateTime) : ℚ := double (t.microsecond / 1000000)

/-- The sum that `timestamp()` returns. -/
def score (t : DateTime) : ℚ := double (t.seconds + t.fraction)

/-- `timestamp()` of a naive time in UTC: it also looks at the day before, which must have a year. -/
def timestamp (t : DateTime) : Except PyError ℚ :=
  if t.toordinal = 1 then .error (.valueError "year 0 is out of range") else .ok t.score

theorem double_mono {x y : ℚ} (h : x ≤ y) : double x ≤ double y := roundTo_mono (by decide) h

theorem microsecond_div_lt (t : DateTime) : (t.microsecond : ℚ) / 1000000 < 1 := by
  rw [div_lt_one (by norm_num)]
  exact_mod_cast t.microsecond_lt

theorem fraction_mem (t : DateTime) : 0 ≤ t.fraction ∧ t.fraction ≤ 1 := by
  constructor
  · exact roundTo_nonneg (by positivity)
  · have hone : double 1 = 1 := by decide +kernel
    exact (double_mono t.microsecond_div_lt.le).trans_eq hone

/-- What the two roundings leave of the distance of two times. -/
theorem score_lt_of_distance {s t : DateTime} {m : ℤ} (hs : |(s.seconds + s.fraction : ℚ)| < 2 ^ m)
    (ht : |(t.seconds + t.fraction : ℚ)| < 2 ^ m)
    (h : (2 : ℚ) ^ (m - 53) + 2 ^ (-53 : ℤ) < (t.micros - s.micros) / 1000000) :
    s.score < t.score := by
  have herror : ∀ r : DateTime, |r.fraction - r.microsecond / 1000000| ≤ 2 ^ (-53 : ℤ) / 2 := by
    intro r
    have hbelow : |(r.microsecond : ℚ) / 1000000| < 2 ^ (0 : ℤ) := by
      rw [abs_of_nonneg (by positivity), zpow_zero]
      exact r.microsecond_div_lt
    exact abs_roundTo_sub_le_of_lt hbelow
  have hs' := abs_le.mp (herror s)
  have ht' := abs_le.mp (herror t)
  refine roundTo_lt_roundTo hs ht ?_
  unfold micros at h
  push_cast at h ⊢
  linarith

/-- The time is less than `2 ^ m` seconds away from 1970. -/
def Near (m : ℕ) (t : DateTime) : Prop := -2 ^ m < t.seconds ∧ t.seconds + 1 < 2 ^ m

/-- A bound of the exact sum. -/
theorem Near.abs_sum_lt {t : DateTime} {m : ℕ} (h : t.Near m) :
    |(t.seconds + t.fraction : ℚ)| < 2 ^ (m : ℤ) := by
  have hlow : (-2 ^ m : ℚ) < t.seconds := by exact_mod_cast h.1
  have hhigh : (t.seconds + 1 : ℚ) < 2 ^ m := by exact_mod_cast h.2
  rw [zpow_natCast, abs_lt]
  constructor
  · linarith [t.fraction_mem.1]
  · linarith [t.fraction_mem.2]

/-- **Scores tell times apart that lie further apart than the doubles around them**: by more than the
`2 ^ 53`rd part of `2 ^ m + 1` seconds. -/
theorem score_lt_of_near {s t : DateTime} {m : ℕ} (hs : s.Near m) (ht : t.Near m)
    (h : 1000000 * (2 ^ m + 1) < 2 ^ 53 * (t.micros - s.micros)) : s.score < t.score := by
  refine score_lt_of_distance hs.abs_sum_lt ht.abs_sum_lt ?_
  have hgap : (1000000 * (2 ^ m + 1) : ℚ) < 2 ^ 53 * (t.micros - s.micros) := by exact_mod_cast h
  rw [lt_div_iff₀ (by norm_num), zpow_sub₀ two_ne_zero, zpow_natCast, zpow_neg]
  norm_num at hgap ⊢
  linarith

/-- The doubles around the time are less than a microsecond apart: from October 1697 to March 2242. -/
def Resolved (t : DateTime) : Prop := -2 ^ 33 < t.seconds ∧ t.seconds + 1 < 2 ^ 33

instance (t : DateTime) : Decidable t.Resolved := inferInstanceAs (Decidable (_ ∧ _))

/-- **Scores tell the times of these centuries apart.** -/
theorem score_lt_of_resolved {s t : DateTime} (hs : s.Resolved) (ht : t.Resolved) (h : s < t) :
    s.score < t.score := by
  refine score_lt_of_near (m := 33) hs ht ?_
  have hmicros := micros_lt h
  omega

/-- The first day of the calendar is the first of January of year 1. -/
theorem toordinal_eq_one_iff {t : DateTime} :
    t.toordinal = 1 ↔ t.year = 1 ∧ t.month = 1 ∧ t.day = 1 := by
  constructor
  · intro h
    by_contra hnot
    have hday := t.day_range.1
    have hmonth := t.month_range.1
    have hyear := t.year_range.1
    -- any other date comes after it
    have hlater := toordinal_lt (s := ⟨1, 1, 1, 0, 0, 0, 0, by decide, by decide, by decide, by decide,
      by decide, by decide, by decide⟩) (t := t) (by dsimp only; omega)
    rw [h] at hlater
    exact absurd hlater (by decide)
  · rintro ⟨hyear, hmonth, hday⟩
    unfold toordinal
    rw [hyear, hmonth, hday]
    rfl

/-- **Only the first day has no score.** -/
theorem timestamp_eq_ok_iff {t : DateTime} :
    t.timestamp = .ok t.score ↔ ¬ (t.year = 1 ∧ t.month = 1 ∧ t.day = 1) := by
  rw [← toordinal_eq_one_iff]
  unfold timestamp
  split_ifs with h
  · exact ⟨fun hok => hok.elim, fun hnot => absurd h hnot⟩
  · exact ⟨fun _ => h, fun _ => rfl⟩

end DateTime

end HighLoad
