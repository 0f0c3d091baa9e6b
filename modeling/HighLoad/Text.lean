/-
# HighLoad.Text — ids and timestamps as strings

`str(uuid)` and `datetime.isoformat()`, the forms in which ids and timestamps reach Redis. Sorted
sets break ties between members by their strings: for ids this is the order of the 128-bit integers
(`Uuid.str_lt_str_iff`).
-/
import HighLoad.Base
import Mathlib.Data.String.Basic

namespace HighLoad

/-! ## UUIDs -/

/-- A lower-case hexadecimal digit. -/
def hexDigit (d : Nat) : Char :=
  "0123456789abcdef".toList.getD d '0'

theorem hexDigit_lt_iff {d e : Nat} (hd : d < 16) (he : e < 16) :
    hexDigit d < hexDigit e ↔ d < e := by
  have hall : ∀ d : Fin 16, ∀ e : Fin 16, hexDigit d < hexDigit e ↔ d.val < e.val := by decide
  exact hall ⟨d, hd⟩ ⟨e, he⟩

theorem hexDigit_inj {d e : Nat} (hd : d < 16) (he : e < 16) : hexDigit d = hexDigit e ↔ d = e := by
  have hall : ∀ d : Fin 16, ∀ e : Fin 16, hexDigit d = hexDigit e ↔ d.val = e.val := by decide
  exact hall ⟨d, hd⟩ ⟨e, he⟩

/-- The 32 hexadecimal digits in the groups 8-4-4-4-12. -/
def dashed (hex : List Char) : List Char :=
  hex.take 8 ++ '-' :: ((hex.drop 8).take 4 ++ '-' :: ((hex.drop 12).take 4 ++
    '-' :: ((hex.drop 16).take 4 ++ '-' :: hex.drop 20)))

/-- `UUID.hex`. -/
def Uuid.hex (u : Uuid) : List Char := (Radix.digits 16 32 u.int).map hexDigit

/-- `str(uuid)`. -/
def Uuid.str (u : Uuid) : String := String.ofList (dashed u.hex)

/-- One group and its dash do not change how two digit lists compare. -/
theorem group_lt_iff {k : Nat} {xs ys xs' ys' : List Char} (hx : k ≤ xs.length)
    (hy : k ≤ ys.length) (hrest : xs' < ys' ↔ xs.drop k < ys.drop k) :
    xs.take k ++ '-' :: xs' < ys.take k ++ '-' :: ys' ↔ xs < ys := by
  have hlen : (xs.take k).length = (ys.take k).length := by
    rw [List.length_take_of_le hx, List.length_take_of_le hy]
  have hwhole : xs < ys ↔ xs.take k ++ xs.drop k < ys.take k ++ ys.drop k := by
    rw [List.take_append_drop, List.take_append_drop]
  rw [hwhole, Radix.append_lt_append_iff hlen, Radix.append_lt_append_iff hlen,
    List.cons_lt_cons_self, hrest]

theorem dashed_lt_iff {xs ys : List Char} (hx : xs.length = 32) (hy : ys.length = 32) :
    dashed xs < dashed ys ↔ xs < ys := by
  have hgroup : ∀ k n, k + n ≤ 32 → n ≤ (xs.drop k).length ∧ n ≤ (ys.drop k).length := by
    intro k n hk
    rw [List.length_drop, List.length_drop, hx, hy]
    omega
  refine group_lt_iff (by omega) (by omega) ?_
  refine group_lt_iff (hgroup 8 4 (by omega)).1 (hgroup 8 4 (by omega)).2 ?_
  rw [List.drop_drop, List.drop_drop]
  refine group_lt_iff (hgroup 12 4 (by omega)).1 (hgroup 12 4 (by omega)).2 ?_
  rw [List.drop_drop, List.drop_drop]
  refine group_lt_iff (hgroup 16 4 (by omega)).1 (hgroup 16 4 (by omega)).2 ?_
  rw [List.drop_drop, List.drop_drop]

/-- **The strings of two ids compare as their integers.** -/
theorem Uuid.str_lt_str_iff (u v : Uuid) : u.str < v.str ↔ u.int < v.int := by
  have hlen : ∀ w : Uuid, w.hex.length = 32 := fun w => by simp [hex]
  have hdigit : ∀ (w : Uuid), ∀ d ∈ Radix.digits 16 32 w.int, d < 16 := fun w d hd =>
    Radix.digits_lt (by decide) hd
  have hbound : ∀ w : Uuid, w.int < 16 ^ 32 := by
    intro w
    rw [show (16 : Nat) = 2 ^ 4 from rfl, ← Nat.pow_mul]
    exact w.int_lt
  rw [String.lt_iff_toList_lt, str, str, String.toList_ofList, String.toList_ofList,
    dashed_lt_iff (hlen u) (hlen v), hex, hex,
    Radix.map_lt_map_iff (fun a ha b hb => hexDigit_lt_iff (hdigit u a ha) (hdigit v b hb))
      (fun a ha b hb => hexDigit_inj (hdigit u a ha) (hdigit v b hb)) (by simp),
    Radix.digits_lt_digits_iff (by decide) (hbound u) (hbound v)]

example : (Uuid.ofNat 0x1234).str = "00000000-0000-0000-0000-000000001234" := by decide +kernel

/-- Ids compare as their strings do. -/
instance : LinearOrder Uuid where
  le u v := u.int ≤ v.int
  lt u v := u.int < v.int
  le_refl _ := Nat.le_refl _
  le_trans _ _ _ := Nat.le_trans
  lt_iff_le_not_ge _ _ := Nat.lt_iff_le_and_not_ge
  le_antisymm _ _ h h' := Uuid.ext (Nat.le_antisymm h h')
  le_total _ _ := Nat.le_total _ _
  toDecidableLE u v := inferInstanceAs (Decidable (u.int ≤ v.int))
  toDecidableEq := inferInstance

theorem Uuid.lt_iff_str_lt {u v : Uuid} : u < v ↔ u.str < v.str :=
  (Uuid.str_lt_str_iff u v).symm

/-! ## Timestamps -/

/-- A number on `width` decimal places. -/
def decimal (width n : Nat) : String :=
  String.ofList ((Radix.digits 10 width n).map hexDigit)

/-- `datetime.isoformat()` of a naive datetime: the fraction is left out when it is zero. -/
def DateTime.isoformat (t : DateTime) : String :=
  decimal 4 t.year ++ "-" ++ decimal 2 t.month ++ "-" ++ decimal 2 t.day ++ "T" ++
    decimal 2 t.hour ++ ":" ++ decimal 2 t.minute ++ ":" ++ decimal 2 t.second ++
    (if t.microsecond = 0 then "" else "." ++ decimal 6 t.microsecond)

end HighLoad
