/-
# HighLoad.TextParse — ids and timestamps read back from strings

`UUID(hex)` and `datetime.fromisoformat`, the readers of the strings that `str(uuid)` and
`isoformat()` write. Both round trips are exact (`Uuid.parse_str`, `DateTime.fromisoformat_isoformat`),
and the strings of timestamps compare as the timestamps do although the fraction is left out when it
is zero (`DateTime.isoformat_lt_iff`).
-/
import HighLoad.Text

namespace HighLoad

/-! ## Python string functions -/

/-- `s.strip(chars)`. -/
def stripChars (p : Char → Bool) (s : List Char) : List Char :=
  ((s.dropWhile p).reverse.dropWhile p).reverse

/-- `c.isspace()`. -/
def isSpace (c : Char) : Bool :=
  let n := c.toNat
  (9 ≤ n && n ≤ 13) || (28 ≤ n && n ≤ 32) || n = 0x85 || n = 0xa0 || n = 0x1680 ||
    (0x2000 ≤ n && n ≤ 0x200a) || n = 0x2028 || n = 0x2029 || n = 0x202f || n = 0x205f || n = 0x3000

/-- `s.strip()`. -/
def strip (s : List Char) : List Char := stripChars isSpace s

/-- The zeros of the decimal digits in Unicode 14, each with the nine digits behind it. -/
def decimalZeros : List Nat :=
  [0x30, 0x660, 0x6f0, 0x7c0, 0x966, 0x9e6, 0xa66, 0xae6, 0xb66, 0xbe6, 0xc66, 0xce6, 0xd66, 0xde6,
    0xe50, 0xed0, 0xf20, 0x1040, 0x1090, 0x17e0, 0x1810, 0x1946, 0x19d0, 0x1a80, 0x1a90, 0x1b50,
    0x1bb0, 0x1c40, 0x1c50, 0xa620, 0xa8d0, 0xa900, 0xa9d0, 0xa9f0, 0xaa50, 0xabf0, 0xff10, 0x104a0,
    0x10d30, 0x11066, 0x110f0, 0x11136, 0x111d0, 0x112f0, 0x11450, 0x114d0, 0x11650, 0x116c0,
    0x11730, 0x118e0, 0x11950, 0x11c50, 0x11d50, 0x11da0, 0x16a60, 0x16ac0, 0x16b50, 0x1d7ce,
    0x1d7d8, 0x1d7e2, 0x1d7ec, 0x1d7f6, 0x1e140, 0x1e2f0, 0x1e950, 0x1fbf0]

/-- `unicodedata.decimal(c, None)`. -/
def decimalValue (c : Char) : Option Nat :=
  (decimalZeros.find? fun first => first ≤ c.toNat && c.toNat < first + 10).map (c.toNat - ·)

/-- `s.replace(pat, "")`; the first argument counts characters of a match still to be skipped. -/
def removeSub (pat : List Char) : Nat → List Char → List Char
  | _, [] => []
  | k + 1, _ :: cs => removeSub pat k cs
  | 0, c :: cs =>
      if pat.isPrefixOf (c :: cs) then removeSub pat (pat.length - 1) cs
      else c :: removeSub pat 0 cs

theorem dropWhile_eq_self {p : Char → Bool} {s : List Char} (h : ∀ c ∈ s, p c = false) :
    s.dropWhile p = s := by
  cases s with
  | nil => rfl
  | cons c s => rw [List.dropWhile_cons_of_neg (by simp [h c List.mem_cons_self])]

/-- There is nothing to strip where no character is one of `chars`. -/
theorem stripChars_eq_self {p : Char → Bool} {s : List Char} (h : ∀ c ∈ s, p c = false) :
    stripChars p s = s := by
  unfold stripChars
  rw [dropWhile_eq_self h, dropWhile_eq_self fun c hc => h c (List.mem_reverse.mp hc),
    List.reverse_reverse]

/-- There is nothing to replace where a character of the pattern is missing. -/
theorem removeSub_eq_self {pat s : List Char} {c : Char} (hc : c ∈ pat) (hs : c ∉ s) :
    removeSub pat 0 s = s := by
  induction s with
  | nil => rfl
  | cons d s ih =>
      have hnot : ¬ pat.isPrefixOf (d :: s) = true := by
        intro h
        exact hs ((List.isPrefixOf_iff_prefix.mp h).subset hc)
      rw [removeSub, if_neg hnot, ih fun h => hs (List.mem_cons_of_mem d h)]

/-! ## UUIDs -/

/-- The value of a hexadecimal digit. -/
def hexValue (c : Char) : Option Nat :=
  if '0' ≤ c ∧ c ≤ '9' then some (c.toNat - 48)
  else if 'a' ≤ c ∧ c ≤ 'f' then some (c.toNat - 87)
  else if 'A' ≤ c ∧ c ≤ 'F' then some (c.toNat - 55)
  else none

/-- The digits of a literal for `int(s, 16)`, which takes the decimal digits of any script; an underscore
stands between two of them. -/
def hexLiteral : Bool → List Char → Option (List Nat)
  | afterDigit, [] => if afterDigit then some [] else none
  | afterDigit, c :: cs =>
      if c = '_' then
        if afterDigit then hexLiteral false cs else none
      else do
        let d ← (hexValue c).or (decimalValue c)
        let ds ← hexLiteral true cs
        return d :: ds

/-- The literal behind an optional `0x`, which one underscore may follow. -/
def hexPrefixed : List Char → Option (List Nat)
  | '0' :: c :: cs =>
      if c = 'x' ∨ c = 'X' then
        match cs with
        | '_' :: cs => hexLiteral false cs
        | cs => hexLiteral false cs
      else hexLiteral false ('0' :: c :: cs)
  | cs => hexLiteral false cs

/-- `int(s, 16)`; `none` is a `ValueError`. -/
def intBase16 (s : List Char) : Option Int :=
  match strip s with
  | '-' :: cs => (hexPrefixed cs).map fun ds => -(Radix.ofDigits 16 ds : Int)
  | '+' :: cs => (hexPrefixed cs).map fun ds => (Radix.ofDigits 16 ds : Int)
  | cs => (hexPrefixed cs).map fun ds => (Radix.ofDigits 16 ds : Int)

/-- The text that `UUID(hex)` reads: without `urn:`, `uuid:`, braces and dashes. -/
def uuidDigits (hex : String) : List Char :=
  (stripChars (fun c => c = '{' ∨ c = '}')
    (removeSub "uuid:".toList 0 (removeSub "urn:".toList 0 hex.toList))).filter (· ≠ '-')

/-- `UUID(hex)`; `none` is a `ValueError`. -/
def Uuid.parse (hex : String) : Option Uuid :=
  if (uuidDigits hex).length ≠ 32 then none
  else do
    let int ← intBase16 (uuidDigits hex)
    if h : 0 ≤ int ∧ int.toNat < 2 ^ 128 then some ⟨int.toNat, h.2⟩ else none

/-- What a hexadecimal digit is not, and what it is worth. -/
theorem hexDigit_facts {d : Nat} (hd : d < 16) :
    hexValue (hexDigit d) = some d ∧ hexDigit d ≠ '_' ∧ hexDigit d ≠ '-' ∧ hexDigit d ≠ '+' ∧
      hexDigit d ≠ ':' ∧ hexDigit d ≠ '{' ∧ hexDigit d ≠ '}' ∧ hexDigit d ≠ '.' ∧
      hexDigit d ≠ 'x' ∧ hexDigit d ≠ 'X' ∧ isSpace (hexDigit d) = false := by
  have hall : ∀ d : Fin 16, hexValue (hexDigit d) = some d.val ∧ hexDigit d ≠ '_' ∧
      hexDigit d ≠ '-' ∧ hexDigit d ≠ '+' ∧ hexDigit d ≠ ':' ∧ hexDigit d ≠ '{' ∧
      hexDigit d ≠ '}' ∧ hexDigit d ≠ '.' ∧ hexDigit d ≠ 'x' ∧ hexDigit d ≠ 'X' ∧
      isSpace (hexDigit d) = false := by
    decide
  exact hall ⟨d, hd⟩

theorem hexLiteral_map {ds : List Nat} (hds : ∀ d ∈ ds, d < 16) {b : Bool}
    (h : b = true ∨ ds ≠ []) : hexLiteral b (ds.map hexDigit) = some ds := by
  induction ds generalizing b with
  | nil =>
      have hb : b = true := by simpa using h
      rw [hb]
      rfl
  | cons d ds ih =>
      obtain ⟨hvalue, hne, -⟩ := hexDigit_facts (hds d List.mem_cons_self)
      rw [List.map_cons, hexLiteral, if_neg hne, hvalue, Option.some_or,
        ih (fun e he => hds e (List.mem_cons_of_mem d he)) (Or.inl rfl)]
      rfl

theorem hexPrefixed_map {ds : List Nat} (hds : ∀ d ∈ ds, d < 16) (h : ds ≠ []) :
    hexPrefixed (ds.map hexDigit) = some ds := by
  have hlit := hexLiteral_map (b := false) hds (Or.inr h)
  rw [← hlit]
  unfold hexPrefixed
  split
  · rename_i c cs heq
    have hx : ¬ (c = 'x' ∨ c = 'X') := by
      have hmem : c ∈ ds.map hexDigit := by rw [heq]; simp
      obtain ⟨d, hd, rfl⟩ := List.mem_map.mp hmem
      obtain ⟨-, -, -, -, -, -, -, -, hx, hX, -⟩ := hexDigit_facts (hds d hd)
      simp [hx, hX]
    rw [if_neg hx, heq]
  · rfl

/-- `int` reads back a hexadecimal numeral. -/
theorem intBase16_map {ds : List Nat} (hds : ∀ d ∈ ds, d < 16) (h : ds ≠ []) :
    intBase16 (ds.map hexDigit) = some (Radix.ofDigits 16 ds : Int) := by
  have hmem : ∀ c ∈ ds.map hexDigit, isSpace c = false ∧ c ≠ '-' ∧ c ≠ '+' := by
    intro c hc
    obtain ⟨d, hd, rfl⟩ := List.mem_map.mp hc
    obtain ⟨-, -, hminus, hplus, -, -, -, -, -, -, hspace⟩ := hexDigit_facts (hds d hd)
    exact ⟨hspace, hminus, hplus⟩
  unfold intBase16 strip
  rw [stripChars_eq_self fun c hc => (hmem c hc).1]
  split
  · rename_i cs heq
    exact absurd rfl (hmem '-' (by rw [heq]; simp)).2.1
  · rename_i cs heq
    exact absurd rfl (hmem '+' (by rw [heq]; simp)).2.2
  · rw [hexPrefixed_map hds h]
    rfl

theorem hex_lt {u : Uuid} {d : Nat} (hd : d ∈ Radix.digits 16 32 u.int) : d < 16 :=
  Radix.digits_lt (by decide) hd

/-- A character of an id's string is a dash or a hexadecimal digit. -/
theorem mem_str_iff {u : Uuid} {c : Char} (hc : c ∈ u.str.toList) :
    c = '-' ∨ ∃ d < 16, c = hexDigit d := by
  have hhex : ∀ c ∈ u.hex, ∃ d < 16, c = hexDigit d := by
    intro c hc
    obtain ⟨d, hd, rfl⟩ := List.mem_map.mp hc
    exact ⟨d, hex_lt hd, rfl⟩
  rw [Uuid.str, String.toList_ofList, dashed] at hc
  simp only [List.mem_append, List.mem_cons] at hc
  rcases hc with hc | hc | hc | hc | hc | hc | hc | hc | hc
  · exact Or.inr (hhex c (List.mem_of_mem_take hc))
  · exact Or.inl hc
  · exact Or.inr (hhex c (List.mem_of_mem_drop (List.mem_of_mem_take hc)))
  · exact Or.inl hc
  · exact Or.inr (hhex c (List.mem_of_mem_drop (List.mem_of_mem_take hc)))
  · exact Or.inl hc
  · exact Or.inr (hhex c (List.mem_of_mem_drop (List.mem_of_mem_take hc)))
  · exact Or.inl hc
  · exact Or.inr (hhex c (List.mem_of_mem_drop hc))

/-- Without its dashes the text is the 32 digits again. -/
theorem filter_dashed {hex : List Char} (h : ∀ c ∈ hex, c ≠ '-') :
    (dashed hex).filter (· ≠ '-') = hex := by
  have hself : ∀ l : List Char, (∀ c ∈ l, c ∈ hex) → l.filter (· ≠ '-') = l := by
    intro l hl
    refine List.filter_eq_self.mpr ?_
    intro c hc
    simpa using h c (hl c hc)
  have hdash : ∀ l : List Char, ('-' :: l).filter (· ≠ '-') = l.filter (· ≠ '-') := by
    intro l
    simp
  unfold dashed
  rw [List.filter_append, hdash, List.filter_append, hdash, List.filter_append, hdash,
    List.filter_append, hdash, hself _ fun c hc => List.mem_of_mem_take hc,
    hself _ fun c hc => List.mem_of_mem_drop (List.mem_of_mem_take hc),
    hself _ fun c hc => List.mem_of_mem_drop (List.mem_of_mem_take hc),
    hself _ fun c hc => List.mem_of_mem_drop (List.mem_of_mem_take hc),
    hself _ fun c hc => List.mem_of_mem_drop hc]
  have hjoin : ∀ k n, (hex.drop k).take n ++ hex.drop (k + n) = hex.drop k := by
    intro k n
    rw [← List.drop_drop, List.take_append_drop]
  rw [hjoin 16 4, hjoin 12 4, hjoin 8 4, List.take_append_drop]

theorem uuidDigits_str (u : Uuid) : uuidDigits u.str = u.hex := by
  have hchar : ∀ c ∈ u.str.toList, c ≠ ':' ∧ c ≠ '{' ∧ c ≠ '}' := by
    intro c hc
    rcases mem_str_iff hc with rfl | ⟨d, hd, rfl⟩
    · decide
    · obtain ⟨-, -, -, -, hcolon, hopen, hclose, -⟩ := hexDigit_facts hd
      exact ⟨hcolon, hopen, hclose⟩
  have hcolon : ':' ∉ u.str.toList := fun h => (hchar ':' h).1 rfl
  unfold uuidDigits
  rw [removeSub_eq_self (c := ':') (by decide) hcolon,
    removeSub_eq_self (c := ':') (by decide) hcolon,
    stripChars_eq_self fun c hc => by simp [(hchar c hc).2.1, (hchar c hc).2.2],
    Uuid.str, String.toList_ofList]
  refine filter_dashed ?_
  intro c hc
  obtain ⟨d, hd, rfl⟩ := List.mem_map.mp hc
  exact (hexDigit_facts (hex_lt hd)).2.2.1

/-- **An id is read back from its string.** -/
theorem Uuid.parse_str (u : Uuid) : Uuid.parse u.str = some u := by
  have hne : Radix.digits 16 32 u.int ≠ [] := by
    rw [← List.length_pos_iff, Radix.length_digits]
    decide
  have hint : intBase16 u.hex = some (u.int : Int) := by
    rw [Uuid.hex, intBase16_map (fun d hd => hex_lt hd) hne, Radix.ofDigits_digits]
    rw [show (16 : Nat) = 2 ^ 4 from rfl, ← Nat.pow_mul]
    exact u.int_lt
  have hlen : ¬ u.hex.length ≠ 32 := by simp [Uuid.hex]
  unfold Uuid.parse
  rw [uuidDigits_str, if_neg hlen, hint]
  have hbound : 0 ≤ (u.int : Int) ∧ (u.int : Int).toNat < 2 ^ 128 :=
    ⟨Int.natCast_nonneg _, by rw [Int.toNat_natCast]; exact u.int_lt⟩
  show (if h : 0 ≤ (u.int : Int) ∧ (u.int : Int).toNat < 2 ^ 128 then _ else _) = _
  rw [dif_pos hbound]
  rfl

/-! ## Timestamps -/

/-- `width` decimal digits, and the text behind them. -/
def readDecimal (width : Nat) (cs : List Char) : Option (Nat × List Char) :=
  if (cs.take width).length = width ∧ (cs.take width).all fun c => '0' ≤ c ∧ c ≤ '9' then
    some (Radix.ofDigits 10 ((cs.take width).map fun c => c.toNat - 48), cs.drop width)
  else none

/-- The text behind a separator. -/
def readSeparator (c : Char) : List Char → Option (List Char)
  | [] => none
  | d :: cs => if d = c then some cs else none

/-- The fraction of a second; it may be left out. -/
def readFraction : List Char → Option Nat
  | [] => some 0
  | c :: cs => do
      let cs ← readSeparator '.' (c :: cs)
      let (microsecond, cs) ← readDecimal 6 cs
      if cs = [] then some microsecond else none

/-- `datetime(year, month, …)`; `none` is a `ValueError`. -/
def DateTime.ofFields (year month day hour minute second microsecond : Nat) : Option DateTime :=
  if h : ((1 ≤ year ∧ year ≤ 9999) ∧ (1 ≤ month ∧ month ≤ 12) ∧
      (1 ≤ day ∧ day ≤ daysInMonth year month)) ∧
      hour < 24 ∧ minute < 60 ∧ second < 60 ∧ microsecond < 1000000 then
    some ⟨year, month, day, hour, minute, second, microsecond, h.1.1, h.1.2.1, h.1.2.2, h.2.1,
      h.2.2.1, h.2.2.2.1, h.2.2.2.2⟩
  else none

/-- `datetime.fromisoformat(s)` of what `isoformat()` writes for a naive timestamp; `none` is a
`ValueError`. Python also reads bare dates, offsets and the other forms of ISO 8601: no text that is
stored, and none of a created event, has one of them. -/
def DateTime.fromisoformat (s : String) : Option DateTime := do
  let (year, cs) ← readDecimal 4 s.toList
  let (month, cs) ← readSeparator '-' cs >>= readDecimal 2
  let (day, cs) ← readSeparator '-' cs >>= readDecimal 2
  let (hour, cs) ← readDecimal 2 (cs.drop 1)
  let (minute, cs) ← readSeparator ':' cs >>= readDecimal 2
  let (second, cs) ← readSeparator ':' cs >>= readDecimal 2
  let microsecond ← readFraction cs
  DateTime.ofFields year month day hour minute second microsecond

/-- The characters of a decimal numeral. -/
def decimalChars (width n : Nat) : List Char := (Radix.digits 10 width n).map hexDigit

@[simp] theorem length_decimalChars (width n : Nat) : (decimalChars width n).length = width := by
  simp [decimalChars]

theorem decimalDigit_facts {d : Nat} (hd : d < 10) :
    ('0' ≤ hexDigit d ∧ hexDigit d ≤ '9') ∧ (hexDigit d).toNat - 48 = d := by
  have hall : ∀ d : Fin 10, ('0' ≤ hexDigit d ∧ hexDigit d ≤ '9') ∧
      (hexDigit d).toNat - 48 = d.val := by
    decide
  exact hall ⟨d, hd⟩

/-- A numeral is read back, and the text behind it is left. -/
theorem readDecimal_append {width n : Nat} (hn : n < 10 ^ width) (cs : List Char) :
    readDecimal width (decimalChars width n ++ cs) = some (n, cs) := by
  have hlen := length_decimalChars width n
  have htake : (decimalChars width n ++ cs).take width = decimalChars width n := by
    rw [List.take_append_of_le_length hlen.ge, List.take_of_length_le hlen.le]
  have hdrop : (decimalChars width n ++ cs).drop width = cs := by
    rw [List.drop_append_of_le_length hlen.ge, List.drop_of_length_le hlen.le, List.nil_append]
  have hdigit : ∀ d ∈ Radix.digits 10 width n, d < 10 := fun d hd =>
    Radix.digits_lt (by decide) hd
  have hvalue : (decimalChars width n).map (fun c => c.toNat - 48) = Radix.digits 10 width n := by
    rw [decimalChars, List.map_map]
    refine (List.map_congr_left fun d hd => ?_).trans (List.map_id _)
    exact (decimalDigit_facts (hdigit d hd)).2
  unfold readDecimal
  rw [htake, hdrop, if_pos, hvalue, Radix.ofDigits_digits hn]
  refine ⟨hlen, List.all_eq_true.mpr ?_⟩
  intro c hc
  obtain ⟨d, hd, rfl⟩ := List.mem_map.mp hc
  exact decide_eq_true (decimalDigit_facts (hdigit d hd)).1

/-- The fraction of a second in a timestamp's string. -/
def fractionChars (microsecond : Nat) : List Char :=
  if microsecond = 0 then [] else '.' :: decimalChars 6 microsecond

/-- A timestamp's string, character by character. -/
theorem DateTime.toList_isoformat (t : DateTime) : t.isoformat.toList
    = decimalChars 4 t.year ++ ('-' :: (decimalChars 2 t.month ++ ('-' :: (decimalChars 2 t.day ++
      ('T' :: (decimalChars 2 t.hour ++ (':' :: (decimalChars 2 t.minute ++ (':' ::
        (decimalChars 2 t.second ++ fractionChars t.microsecond)))))))))) := by
  by_cases hus : t.microsecond = 0 <;>
    simp [DateTime.isoformat, decimal, decimalChars, fractionChars, hus]

theorem readSeparator_self (c : Char) (cs : List Char) : readSeparator c (c :: cs) = some cs := by
  simp only [readSeparator, if_true]

/-- A fraction that is written is six digits and nothing else. -/
theorem readFraction_dot (cs : List Char) : readFraction ('.' :: cs)
    = (readDecimal 6 cs).bind fun p => if p.2 = [] then some p.1 else none := by
  have hdo : readFraction ('.' :: cs) = (readSeparator '.' ('.' :: cs)).bind fun cs =>
      (readDecimal 6 cs).bind fun p => if p.2 = [] then some p.1 else none := rfl
  rw [hdo, readSeparator_self, Option.bind_some]

theorem readFraction_fractionChars {microsecond : Nat} (h : microsecond < 1000000) :
    readFraction (fractionChars microsecond) = some microsecond := by
  unfold fractionChars
  by_cases hus : microsecond = 0
  · rw [if_pos hus, hus]
    rfl
  · rw [if_neg hus]
    have hread := readDecimal_append (by omega : microsecond < 10 ^ 6) []
    rw [List.append_nil] at hread
    rw [readFraction_dot, hread, Option.bind_some]
    exact if_pos rfl

/-- The readers of `fromisoformat`, each on the text that the one before it leaves. -/
theorem DateTime.fromisoformat_eq (s : String) : DateTime.fromisoformat s =
    (readDecimal 4 s.toList).bind fun year =>
    ((readSeparator '-' year.2).bind (readDecimal 2)).bind fun month =>
    ((readSeparator '-' month.2).bind (readDecimal 2)).bind fun day =>
    (readDecimal 2 (day.2.drop 1)).bind fun hour =>
    ((readSeparator ':' hour.2).bind (readDecimal 2)).bind fun minute =>
    ((readSeparator ':' minute.2).bind (readDecimal 2)).bind fun second =>
    (readFraction second.2).bind fun microsecond =>
    DateTime.ofFields year.1 month.1 day.1 hour.1 minute.1 second.1 microsecond := rfl

/-- **A timestamp is read back from its string.** -/
theorem DateTime.fromisoformat_isoformat (t : DateTime) :
    DateTime.fromisoformat t.isoformat = some t := by
  have hday := t.day_range.2.trans (daysInMonth_le t.year t.month)
  have hyear := t.year_range
  have hmonth := t.month_range
  have hhour := t.hour_lt
  have hminute := t.minute_lt
  have hsecond := t.second_lt
  have hfields : DateTime.ofFields t.year t.month t.day t.hour t.minute t.second t.microsecond
      = some t := by
    rw [DateTime.ofFields, dif_pos ⟨⟨hyear, hmonth, t.day_range⟩, hhour, hminute, hsecond,
      t.microsecond_lt⟩]
  rw [DateTime.fromisoformat_eq, DateTime.toList_isoformat]
  -- one numeral a line, with the separator before it
  rw [readDecimal_append (show t.year < 10 ^ 4 by omega), Option.bind_some]
  rw [readSeparator_self, Option.bind_some, readDecimal_append (show t.month < 10 ^ 2 by omega),
    Option.bind_some]
  rw [readSeparator_self, Option.bind_some, readDecimal_append (show t.day < 10 ^ 2 by omega),
    Option.bind_some]
  rw [List.drop_one, List.tail_cons, readDecimal_append (show t.hour < 10 ^ 2 by omega),
    Option.bind_some]
  rw [readSeparator_self, Option.bind_some, readDecimal_append (show t.minute < 10 ^ 2 by omega),
    Option.bind_some]
  rw [readSeparator_self, Option.bind_some, readDecimal_append (show t.second < 10 ^ 2 by omega),
    Option.bind_some]
  rw [readFraction_fractionChars t.microsecond_lt, Option.bind_some]
  exact hfields

/-- Numerals of one width compare as their numbers, and decide before the text behind them. -/
theorem decimalChars_append_lt_iff {width m n : Nat} (hm : m < 10 ^ width) (hn : n < 10 ^ width)
    (xs ys : List Char) :
    decimalChars width m ++ xs < decimalChars width n ++ ys ↔ m < n ∨ (m = n ∧ xs < ys) := by
  have hdigit : ∀ k, ∀ d ∈ Radix.digits 10 width k, d < 16 := fun k d hd =>
    (Radix.digits_lt (by decide) hd).trans (by decide)
  have hlt : decimalChars width m < decimalChars width n ↔ m < n := by
    rw [decimalChars, decimalChars,
      Radix.map_lt_map_iff (fun a ha b hb => hexDigit_lt_iff (hdigit m a ha) (hdigit n b hb))
        (fun a ha b hb => hexDigit_inj (hdigit m a ha) (hdigit n b hb)) (by simp),
      Radix.digits_lt_digits_iff (by decide) hm hn]
  have heq : decimalChars width m = decimalChars width n ↔ m = n := by
    constructor
    · intro h
      have hm' := readDecimal_append hm []
      rw [h, readDecimal_append hn []] at hm'
      exact (congrArg Prod.fst (Option.some.inj hm')).symm
    · rintro rfl
      rfl
  rw [Radix.append_lt_append_iff (by simp), hlt, heq]

/-- A fraction that is left out compares as zero. -/
theorem fractionChars_lt_iff {m n : Nat} (hm : m < 1000000) (hn : n < 1000000) :
    fractionChars m < fractionChars n ↔ m < n := by
  unfold fractionChars
  by_cases hm0 : m = 0
  · by_cases hn0 : n = 0
    · simp [hm0, hn0]
    · simp [hm0, hn0, Nat.pos_of_ne_zero hn0]
  · by_cases hn0 : n = 0
    · simp [hm0, hn0]
    · rw [if_neg hm0, if_neg hn0, List.cons_lt_cons_self]
      have h := decimalChars_append_lt_iff (by omega : m < 10 ^ 6)
        (by omega : n < 10 ^ 6) [] []
      simpa using h

/-- Packed numbers compare by their high part first. -/
theorem packed_lt_iff {B a a' b b' : Nat} (hb : b < B) (hb' : b' < B) :
    a * B + b < a' * B + b' ↔ a < a' ∨ (a = a' ∧ b < b') := by
  constructor
  · intro h
    rcases lt_trichotomy a a' with hlt | rfl | hlt
    · exact Or.inl hlt
    · exact Or.inr ⟨rfl, by omega⟩
    · have hmul : (a' + 1) * B ≤ a * B := Nat.mul_le_mul_right B hlt
      rw [Nat.succ_mul] at hmul
      omega
  · rintro (hlt | ⟨rfl, hlt⟩)
    · have hmul : (a + 1) * B ≤ a' * B := Nat.mul_le_mul_right B hlt
      rw [Nat.succ_mul] at hmul
      omega
    · omega

/-- Packed numbers are equal part by part. -/
theorem packed_eq_iff {B a a' b b' : Nat} (hb : b < B) (hb' : b' < B) :
    a * B + b = a' * B + b' ↔ a = a' ∧ b = b' := by
  constructor
  · intro h
    have hlt : ¬ (a < a' ∨ (a = a' ∧ b < b')) := fun hlt =>
      absurd ((packed_lt_iff hb hb').mpr hlt) (by omega)
    have hgt : ¬ (a' < a ∨ (a' = a ∧ b' < b)) := fun hgt =>
      absurd ((packed_lt_iff hb' hb).mpr hgt) (by omega)
    omega
  · rintro ⟨rfl, rfl⟩
    rfl

/-- **The strings of timestamps compare as the timestamps do**, although the fraction is left out when
it is zero. -/
theorem DateTime.isoformat_lt_iff (s t : DateTime) : s.isoformat < t.isoformat ↔ s < t := by
  have hday : ∀ t : DateTime, t.day < 32 := fun t =>
    Nat.lt_succ_of_le (t.day_range.2.trans (daysInMonth_le t.year t.month))
  have hyear := s.year_range
  have hyear' := t.year_range
  have hmonth := s.month_range
  have hmonth' := t.month_range
  rw [String.lt_iff_toList_lt, DateTime.toList_isoformat, DateTime.toList_isoformat,
    DateTime.lt_iff_ticks, DateTime.ticks, DateTime.ticks]
  -- both sides compare the fields one after the other
  rw [packed_lt_iff s.microsecond_lt t.microsecond_lt, packed_lt_iff s.second_lt t.second_lt,
    packed_lt_iff s.minute_lt t.minute_lt, packed_lt_iff s.hour_lt t.hour_lt,
    packed_lt_iff (hday s) (hday t), packed_lt_iff (by omega) (by omega),
    packed_eq_iff s.second_lt t.second_lt, packed_eq_iff s.minute_lt t.minute_lt,
    packed_eq_iff s.hour_lt t.hour_lt, packed_eq_iff (hday s) (hday t),
    packed_eq_iff (by omega) (by omega)]
  rw [decimalChars_append_lt_iff (by omega) (by omega), List.cons_lt_cons_self,
    decimalChars_append_lt_iff (by omega) (by omega), List.cons_lt_cons_self,
    decimalChars_append_lt_iff ((hday s).trans (by decide)) ((hday t).trans (by decide)),
    List.cons_lt_cons_self,
    decimalChars_append_lt_iff (s.hour_lt.trans (by decide)) (t.hour_lt.trans (by decide)),
    List.cons_lt_cons_self,
    decimalChars_append_lt_iff (s.minute_lt.trans (by decide)) (t.minute_lt.trans (by decide)),
    List.cons_lt_cons_self,
    decimalChars_append_lt_iff (s.second_lt.trans (by decide)) (t.second_lt.trans (by decide)),
    fractionChars_lt_iff s.microsecond_lt t.microsecond_lt]
  simp only [and_or_left, or_assoc, and_assoc]

end HighLoad
