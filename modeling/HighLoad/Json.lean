/-
# HighLoad.Json — the bytes of a message

`json.dumps` of a dict of texts with the compact separators, and `json.loads` of bytes. The writer
escapes everything outside of printable ASCII, characters above `\uffff` as two surrogates; the reader
takes the full grammar. Whatever the texts are, what was written is printable ASCII
(`printable_dumps`) and is read back (`loads_encode_dumps`).
-/
import HighLoad.TextParse

namespace HighLoad

/-- A JSON value; a number is its literal. -/
inductive Json where
  | null
  | bool (value : Bool)
  | number (literal : List Char)
  | str (value : String)
  | arr (items : List Json)
  | obj (fields : List (String × Json))

namespace Json

/-! ## Writing -/

/-- The short escapes of the writer. -/
def shortEscapes : List (Char × Char) :=
  [('\x22', '\x22'), ('\x5c', '\x5c'), ('\n', 'n'), ('\r', 'r'), ('\t', 't'), ('\x0c', 'f'),
    ('\x08', 'b')]

/-- The text of `\uXXXX` behind the backslash. -/
def unicodeEscape (n : Nat) : List Char := 'u' :: (Radix.digits 16 4 n).map hexDigit

/-- A character inside the quotes. -/
def escapeChar (c : Char) : List Char :=
  match shortEscapes.lookup c with
  | some e => ['\x5c', e]
  | none =>
      if ' ' ≤ c ∧ c ≤ '~' then [c]
      else if c.toNat < 0x10000 then '\x5c' :: unicodeEscape c.toNat
      else '\x5c' :: (unicodeEscape (0xd800 + (c.toNat - 0x10000) / 0x400) ++
        '\x5c' :: unicodeEscape (0xdc00 + (c.toNat - 0x10000) % 0x400))

/-- A text in quotes, and what follows it. -/
def quoted (s : String) (rest : List Char) : List Char :=
  '\x22' :: (s.toList.flatMap escapeChar ++ '\x22' :: rest)

/-- The members of an object, and what follows them. -/
def dumpsMembers : List (String × String) → List Char → List Char
  | [], rest => rest
  | [(key, value)], rest => quoted key (':' :: quoted value rest)
  | (key, value) :: kv :: kvs, rest =>
      quoted key (':' :: quoted value (',' :: dumpsMembers (kv :: kvs) rest))

/-- `json.dumps(payload, separators=(",", ":"))`. -/
def dumps (payload : List (String × String)) : List Char :=
  '{' :: dumpsMembers payload ['}']

/-- `s.encode()`. -/
def encodeUtf8 (s : List Char) : List UInt8 := s.flatMap String.utf8EncodeChar

/-! ## Reading -/

/-- The escapes of the reader. -/
def backslash : List (Char × Char) :=
  [('\x22', '\x22'), ('\x5c', '\x5c'), ('/', '/'), ('b', '\x08'), ('f', '\x0c'), ('n', '\n'),
    ('r', '\r'), ('t', '\t')]

/-- Four hexadecimal digits, and what follows them. -/
def readHex4 (cs : List Char) : Option (Nat × List Char) :=
  if cs.length < 4 then none
  else ((cs.take 4).mapM hexValue).map fun ds => (Radix.ofDigits 16 ds, cs.drop 4)

/-- A code point that is a character; a lone surrogate is none. -/
def charOf (n : Nat) : Option Char := if n.isValidChar then some (Char.ofNat n) else none

/-- What `\uXXXX` stands for, behind the `u`: a first surrogate takes the second one along. -/
def readUnicode (cs : List Char) : Option (Char × List Char) := do
  let (n, cs) ← readHex4 cs
  if 0xd800 ≤ n ∧ n ≤ 0xdbff then
    if cs.take 2 = ['\x5c', 'u'] then do
      let (m, cs) ← readHex4 (cs.drop 2)
      if 0xdc00 ≤ m ∧ m ≤ 0xdfff then
        (charOf (0x10000 + ((n - 0xd800) * 0x400 + (m - 0xdc00)))).map (·, cs)
      else none
    else none
  else (charOf n).map (·, cs)

/-- What an escape stands for, behind the backslash. -/
def readEscape : List Char → Option (Char × List Char)
  | [] => none
  | e :: cs => if e = 'u' then readUnicode cs else (backslash.lookup e).map (·, cs)

/-- The characters up to the closing quote; control characters are not allowed. -/
def readChars : Nat → List Char → Option (List Char × List Char)
  | 0, _ => none
  | _ + 1, [] => none
  | fuel + 1, c :: cs =>
      if c = '\x22' then some ([], cs)
      else if c = '\x5c' then
        (readEscape cs).bind fun e => (readChars fuel e.2).map fun s => (e.1 :: s.1, s.2)
      else if c < ' ' then none
      else (readChars fuel cs).map fun s => (c :: s.1, s.2)

/-- A text, behind its opening quote. -/
def readText (cs : List Char) : Option (String × List Char) :=
  (readChars (cs.length + 1) cs).map fun s => (String.ofList s.1, s.2)

/-- White space of JSON. -/
def skipSpace (cs : List Char) : List Char := cs.dropWhile (· ∈ [' ', '\t', '\n', '\r'])

/-- `0|[1-9]\d*`. -/
def readNatural : List Char → Option (List Char × List Char)
  | '0' :: cs => some (['0'], cs)
  | cs => if cs.takeWhile Char.isDigit = [] then none
      else some (cs.takeWhile Char.isDigit, cs.dropWhile Char.isDigit)

/-- `-?(?:0|[1-9]\d*)`. -/
def readInteger : List Char → Option (List Char × List Char)
  | '-' :: cs => (readNatural cs).map fun n => ('-' :: n.1, n.2)
  | cs => readNatural cs

/-- `(\.\d+)?`. -/
def readFraction : List Char → List Char × List Char
  | '.' :: cs => if cs.takeWhile Char.isDigit = [] then ([], '.' :: cs)
      else ('.' :: cs.takeWhile Char.isDigit, cs.dropWhile Char.isDigit)
  | cs => ([], cs)

/-- `([eE][-+]?\d+)?`. -/
def readExponent (cs : List Char) : List Char × List Char :=
  match cs with
  | [] => ([], [])
  | e :: rest =>
      let sign := (rest.take 1).filter fun c => c = '-' ∨ c = '+'
      let digits := (rest.drop sign.length).takeWhile Char.isDigit
      if (e = 'e' ∨ e = 'E') ∧ digits ≠ [] then
        (e :: (sign ++ digits), rest.drop (sign.length + digits.length))
      else ([], cs)

/-- A number. -/
def readNumber (cs : List Char) : Option (List Char × List Char) :=
  (readInteger cs).map fun n =>
    let fraction := readFraction n.2
    let exponent := readExponent fraction.2
    (n.1 ++ fraction.1 ++ exponent.1, exponent.2)

/-- The constants, among them those that only Python reads. -/
def constants : List (List Char × Json) :=
  [("null".toList, .null), ("true".toList, .bool true), ("false".toList, .bool false)] ++
    ["NaN".toList, "Infinity".toList, "-Infinity".toList].map fun s => (s, .number s)

/-- A value that is neither a text, nor an array, nor an object. -/
def readScalar (cs : List Char) : Option (Json × List Char) :=
  match readNumber cs with
  | some n => some (.number n.1, n.2)
  | none => (constants.find? fun c => c.1.isPrefixOf cs).map fun c => (c.2, cs.drop c.1.length)

/-- `d[key] = value`. -/
def setItem (d : List (String × Json)) (kv : String × Json) : List (String × Json) :=
  if kv.1 ∈ d.map Prod.fst then d.map fun p => if p.1 = kv.1 then kv else p else d ++ [kv]

/-- `dict(pairs)`. -/
def dictOf (pairs : List (String × Json)) : List (String × Json) := pairs.foldl setItem []

mutual

/-- `scan_once`: one value, and what follows it. -/
def readValue : Nat → List Char → Option (Json × List Char)
  | 0, _ => none
  | _ + 1, [] => none
  | fuel + 1, c :: cs =>
      if c = '\x22' then (readText cs).map fun s => (.str s.1, s.2)
      else if c = '{' then
        match skipSpace cs with
        | [] => none
        | d :: rest =>
            if d = '}' then some (.obj [], rest)
            else if d = '\x22' then (readMembers fuel rest).map fun m => (.obj (dictOf m.1), m.2)
            else none
      else if c = '[' then
        match skipSpace cs with
        | [] => none
        | d :: rest =>
            if d = ']' then some (.arr [], rest)
            else (readItems fuel (d :: rest)).map fun items => (.arr items.1, items.2)
      else readScalar (c :: cs)

/-- The members of an object, behind the opening quote of the first key. -/
def readMembers : Nat → List Char → Option (List (String × Json) × List Char)
  | 0, _ => none
  | fuel + 1, cs =>
      (readText cs).bind fun key =>
        match skipSpace key.2 with
        | [] => none
        | c :: cs =>
            if c ≠ ':' then none
            else (readValue fuel (skipSpace cs)).bind fun value =>
              match skipSpace value.2 with
              | [] => none
              | d :: rest =>
                  if d = '}' then some ([(key.1, value.1)], rest)
                  else if d ≠ ',' then none
                  else
                    match skipSpace rest with
                    | [] => none
                    | e :: rest =>
                        if e ≠ '\x22' then none
                        else (readMembers fuel rest).map fun m => ((key.1, value.1) :: m.1, m.2)

/-- The items of an array, behind the white space before the first one. -/
def readItems : Nat → List Char → Option (List Json × List Char)
  | 0, _ => none
  | fuel + 1, cs =>
      (readValue fuel cs).bind fun value =>
        match skipSpace value.2 with
        | [] => none
        | d :: rest =>
            if d = ']' then some ([value.1], rest)
            else if d ≠ ',' then none
            else (readItems fuel (skipSpace rest)).map fun items => (value.1 :: items.1, items.2)

end

/-- `json.loads` of a text; `none` is a `JSONDecodeError`. -/
def loadsText (s : List Char) : Option Json :=
  (readValue (s.length + 1) (skipSpace s)).bind fun value =>
    if skipSpace value.2 = [] then some value.1 else none

/-- The encodings of `detect_encoding`. -/
inductive Encoding where
  | utf8
  | utf8Sig
  | utf16
  | utf32
  deriving DecidableEq

/-- `detect_encoding(b)`, up to the order of the bytes. -/
def detectEncoding (b : List UInt8) : Encoding :=
  if [0x00, 0x00, 0xfe, 0xff].isPrefixOf b ∨ [0xff, 0xfe, 0x00, 0x00].isPrefixOf b then .utf32
  else if [0xfe, 0xff].isPrefixOf b ∨ [0xff, 0xfe].isPrefixOf b then .utf16
  else if [0xef, 0xbb, 0xbf].isPrefixOf b then .utf8Sig
  else
    match b with
    | b₀ :: b₁ :: b₂ :: b₃ :: _ =>
        if b₀ = 0 then if b₁ = 0 then .utf32 else .utf16
        else if b₁ = 0 then if b₂ = 0 ∧ b₃ = 0 then .utf32 else .utf16
        else .utf8
    | [b₀, b₁] => if b₀ = 0 ∨ b₁ = 0 then .utf16 else .utf8
    | _ => .utf8

/-- `b.decode("utf-8")`; `none` is a `UnicodeDecodeError`. -/
def decodeUtf8 (b : List UInt8) : Option (List Char) :=
  (String.fromUTF8? b.toByteArray).map String.toList

/-- `json.loads` of bytes in UTF-8; `none` is a `ValueError`. -/
def loads (raw : List UInt8) : Option Json :=
  match detectEncoding raw with
  | .utf8 => (decodeUtf8 raw).bind loadsText
  | .utf8Sig => (decodeUtf8 (raw.drop 3)).bind loadsText
  | _ => none

/-! ## What was written is read back -/

theorem mapM_hexValue {ds : List Nat} (hds : ∀ d ∈ ds, d < 16) :
    (ds.map hexDigit).mapM hexValue = some ds := by
  induction ds with
  | nil => rfl
  | cons d ds ih =>
      obtain ⟨hvalue, -⟩ := hexDigit_facts (hds d List.mem_cons_self)
      rw [List.map_cons, List.mapM_cons, hvalue, ih fun e he => hds e (List.mem_cons_of_mem d he)]
      rfl

theorem readHex4_digits {n : Nat} (hn : n < 0x10000) (cs : List Char) :
    readHex4 ((Radix.digits 16 4 n).map hexDigit ++ cs) = some (n, cs) := by
  have hlength : ((Radix.digits 16 4 n).map hexDigit).length = 4 := by simp
  have hdigits : ((Radix.digits 16 4 n).map hexDigit).mapM hexValue = some (Radix.digits 16 4 n) :=
    mapM_hexValue fun d hd => Radix.digits_lt (by decide) hd
  unfold readHex4
  rw [if_neg (by rw [List.length_append, hlength]; omega), List.take_left' hlength,
    List.drop_left' hlength, hdigits, Option.map_some, Radix.ofDigits_digits hn]

theorem charOf_toNat (c : Char) : charOf c.toNat = some c := by
  unfold charOf
  rw [if_pos (show c.toNat.isValidChar from c.valid), Char.ofNat_toNat]

/-- A character is no surrogate. -/
theorem not_surrogate (c : Char) : c.toNat < 0xd800 ∨ 0xdfff < c.toNat ∧ c.toNat < 0x110000 := c.valid

theorem readEscape_bmp {c : Char} (hc : c.toNat < 0x10000) (cs : List Char) :
    readEscape (unicodeEscape c.toNat ++ cs) = some (c, cs) := by
  have hno : ¬ (0xd800 ≤ c.toNat ∧ c.toNat ≤ 0xdbff) := by
    have hvalid := not_surrogate c
    omega
  show readUnicode ((Radix.digits 16 4 c.toNat).map hexDigit ++ cs) = some (c, cs)
  unfold readUnicode
  rw [readHex4_digits hc]
  simp only [Option.bind_eq_bind, Option.bind_some, if_neg hno, charOf_toNat, Option.map_some]

/-- The two surrogates of a character above `\uffff` are joined again. -/
theorem readEscape_astral {c : Char} (hc : 0x10000 ≤ c.toNat) (cs : List Char) :
    readEscape (unicodeEscape (0xd800 + (c.toNat - 0x10000) / 0x400) ++
      '\x5c' :: unicodeEscape (0xdc00 + (c.toNat - 0x10000) % 0x400) ++ cs) = some (c, cs) := by
  have hvalid := not_surrogate c
  obtain ⟨m, hm⟩ : ∃ m, m = c.toNat - 0x10000 := ⟨_, rfl⟩
  rw [← hm]
  have hhigh : 0xd800 ≤ 0xd800 + m / 0x400 ∧ 0xd800 + m / 0x400 ≤ 0xdbff := by omega
  have hlow : 0xdc00 ≤ 0xdc00 + m % 0x400 ∧ 0xdc00 + m % 0x400 ≤ 0xdfff := by omega
  have hjoin : 0x10000 + ((0xd800 + m / 0x400 - 0xd800) * 0x400 + (0xdc00 + m % 0x400 - 0xdc00))
      = c.toNat := by
    omega
  simp only [unicodeEscape, List.cons_append, List.append_assoc]
  rw [readEscape, if_pos rfl, readUnicode, readHex4_digits (by omega)]
  simp only [Option.bind_eq_bind, Option.bind_some, if_pos hhigh, List.take_succ_cons, List.take_zero,
    if_true, List.drop_succ_cons, List.drop_zero]
  rw [readHex4_digits (by omega)]
  simp only [Option.bind_some, if_pos hlow, hjoin, charOf_toNat, Option.map_some]

/-- The reader knows the short escapes of the writer. -/
theorem backslash_short {c e : Char} (h : shortEscapes.lookup c = some e) :
    e ≠ 'u' ∧ backslash.lookup e = some c := by
  have hall : ∀ p ∈ shortEscapes, p.2 ≠ 'u' ∧ backslash.lookup p.2 = some p.1 := by
    intro p hp
    simp only [shortEscapes, List.mem_cons, List.not_mem_nil, or_false] at hp
    rcases hp with rfl | rfl | rfl | rfl | rfl | rfl | rfl <;> exact ⟨by decide, rfl⟩
  obtain ⟨before, behind, hlist, -⟩ := List.lookup_eq_some_iff.mp h
  exact hall (c, e) (by rw [hlist]; simp)

/-- One escaped character. -/
theorem readChars_escapeChar (c : Char) (fuel : Nat) (cs : List Char) :
    readChars (fuel + 1) (escapeChar c ++ cs) = (readChars fuel cs).map fun s => (c :: s.1, s.2) := by
  have hescaped : ∀ (e : List Char), readEscape (e ++ cs) = some (c, cs) →
      readChars (fuel + 1) ('\x5c' :: e ++ cs) = (readChars fuel cs).map fun s => (c :: s.1, s.2) := by
    intro e he
    rw [List.cons_append, readChars, if_neg (by decide), if_pos rfl, he]
    rfl
  unfold escapeChar
  cases hshort : shortEscapes.lookup c with
  | some e =>
      obtain ⟨hne, hlookup⟩ := backslash_short hshort
      refine hescaped [e] ?_
      show readEscape (e :: cs) = _
      rw [readEscape, if_neg hne, hlookup]
      rfl
  | none =>
      dsimp only
      split_ifs with hplain hbmp
      · have hquote : c ≠ '\x22' := by
          rintro rfl
          cases hshort
        have hback : c ≠ '\x5c' := by
          rintro rfl
          cases hshort
        rw [List.singleton_append, readChars, if_neg hquote, if_neg hback, if_neg (not_lt.mpr hplain.1)]
      · exact hescaped _ (readEscape_bmp hbmp cs)
      · exact hescaped _ (readEscape_astral (not_lt.mp hbmp) cs)

/-- A text is read back up to its closing quote. -/
theorem readChars_flatMap (s cs : List Char) {fuel : Nat} (hfuel : s.length < fuel) :
    readChars fuel (s.flatMap escapeChar ++ '\x22' :: cs) = some (s, cs) := by
  induction s generalizing fuel with
  | nil =>
      obtain ⟨fuel, rfl⟩ := Nat.exists_eq_succ_of_ne_zero (Nat.ne_of_gt hfuel)
      rw [List.flatMap_nil, List.nil_append, readChars, if_pos rfl]
  | cons c s ih =>
      obtain ⟨fuel, rfl⟩ := Nat.exists_eq_succ_of_ne_zero (Nat.ne_of_gt (Nat.zero_lt_of_lt hfuel))
      rw [List.flatMap_cons, List.append_assoc, readChars_escapeChar, ih (Nat.lt_of_succ_lt_succ hfuel)]
      rfl

theorem escapeChar_ne_nil (c : Char) : escapeChar c ≠ [] := by
  unfold escapeChar
  split
  · simp
  · split_ifs <;> simp

theorem length_le_flatMap (s : List Char) : s.length ≤ (s.flatMap escapeChar).length := by
  induction s with
  | nil => exact Nat.le_refl 0
  | cons c s ih =>
      have hpos := List.length_pos_iff.mpr (escapeChar_ne_nil c)
      rw [List.flatMap_cons, List.length_append, List.length_cons]
      omega

theorem readText_quoted (s : String) (cs : List Char) :
    readText (s.toList.flatMap escapeChar ++ '\x22' :: cs) = some (s, cs) := by
  have hlength := length_le_flatMap s.toList
  unfold readText
  rw [readChars_flatMap s.toList cs, Option.map_some, String.ofList_toList]
  rw [List.length_append, List.length_cons]
  omega

theorem readValue_quoted (s : String) (fuel : Nat) (cs : List Char) :
    readValue (fuel + 1) (quoted s cs) = some (.str s, cs) := by
  rw [quoted, readValue, if_pos rfl, readText_quoted]
  rfl

theorem skipSpace_cons {c : Char} (hc : c ∉ [' ', '\t', '\n', '\r']) (cs : List Char) :
    skipSpace (c :: cs) = c :: cs :=
  List.dropWhile_cons_of_neg (by simpa using hc)

/-- A text in quotes begins with no white space. -/
theorem skipSpace_quoted (s : String) (cs : List Char) : skipSpace (quoted s cs) = quoted s cs :=
  skipSpace_cons (by decide) _

/-- The members of a dict of texts. -/
def members (payload : List (String × String)) : List (String × Json) :=
  payload.map fun kv => (kv.1, .str kv.2)

/-- The members are read back one after the other. -/
theorem readMembers_dumpsMembers {payload : List (String × String)} (hne : payload ≠ [])
    {fuel : Nat} (hfuel : payload.length < fuel) (rest : List Char) :
    ∃ cs, dumpsMembers payload ('}' :: rest) = '\x22' :: cs ∧
      readMembers fuel cs = some (members payload, rest) := by
  -- a key, its colon and its value, before any `close`
  have hmember : ∀ (key value : String) (fuel : Nat) (close : List Char),
      readMembers (fuel + 2) (key.toList.flatMap escapeChar ++ '\x22' :: ':' :: quoted value close)
        = match skipSpace close with
          | [] => none
          | d :: rest =>
              if d = '}' then some ([(key, .str value)], rest)
              else if d ≠ ',' then none
              else
                match skipSpace rest with
                | [] => none
                | e :: rest =>
                    if e ≠ '\x22' then none
                    else (readMembers (fuel + 1) rest).map fun m => ((key, .str value) :: m.1, m.2) := by
    intro key value fuel close
    rw [readMembers, readText_quoted, Option.bind_some]
    dsimp only
    rw [skipSpace_cons (by decide)]
    dsimp only
    rw [if_neg (by simp), skipSpace_quoted, readValue_quoted, Option.bind_some]
  induction payload generalizing fuel with
  | nil => exact absurd rfl hne
  | cons kv kvs ih =>
      obtain ⟨key, value⟩ := kv
      obtain ⟨fuel, rfl⟩ : ∃ n, fuel = n + 2 := ⟨fuel - 2, by rw [List.length_cons] at hfuel; omega⟩
      cases kvs with
      | nil =>
          refine ⟨_, rfl, ?_⟩
          rw [hmember, skipSpace_cons (by decide)]
          rfl
      | cons kv' kvs =>
          have hfewer : (kv' :: kvs).length < fuel + 1 := by simpa using hfuel
          obtain ⟨cs, hcs, hread⟩ := ih (List.cons_ne_nil kv' kvs) hfewer
          refine ⟨_, rfl, ?_⟩
          rw [hmember, skipSpace_cons (by decide)]
          dsimp only
          rw [if_neg (by decide), if_neg (by simp), hcs, skipSpace_cons (by decide)]
          dsimp only
          rw [if_neg (by simp), hread]
          rfl

/-- A dict with different keys is the list of its pairs. -/
theorem dictOf_eq {pairs : List (String × Json)} (h : (pairs.map Prod.fst).Nodup) :
    dictOf pairs = pairs := by
  have hfold : ∀ (acc : List (String × Json)), ((acc ++ pairs).map Prod.fst).Nodup →
      pairs.foldl setItem acc = acc ++ pairs := by
    clear h
    induction pairs with
    | nil => exact fun acc _ => (List.append_nil acc).symm
    | cons kv pairs ih =>
        intro acc hacc
        have hnew : kv.1 ∉ acc.map Prod.fst := by
          rw [List.map_append, List.map_cons] at hacc
          exact fun hmem => (List.nodup_append.mp hacc).2.2 _ hmem _ List.mem_cons_self rfl
        have hcons : acc ++ kv :: pairs = acc ++ [kv] ++ pairs := by simp
        rw [List.foldl_cons, setItem, if_neg hnew, ih _ (hcons ▸ hacc), hcons]
  exact hfold [] h

theorem length_le_dumpsMembers (payload : List (String × String)) (rest : List Char) :
    payload.length ≤ (dumpsMembers payload rest).length := by
  induction payload with
  | nil => exact Nat.zero_le _
  | cons kv kvs ih =>
      cases kvs with
      | nil => simp [dumpsMembers, quoted]
      | cons kv' kvs =>
          simp only [dumpsMembers, quoted, List.length_cons, List.length_append] at ih ⊢
          omega

/-- **The text of a dict of texts is read back.** -/
theorem loadsText_dumps {payload : List (String × String)} (h : (payload.map Prod.fst).Nodup) :
    loadsText (dumps payload) = some (.obj (members payload)) := by
  have hopen : readValue ((dumps payload).length + 1) (dumps payload) = some (.obj (members payload), []) := by
    rw [dumps, readValue, if_neg (by decide), if_pos rfl]
    cases payload with
    | nil => rfl
    | cons kv kvs =>
        have hlength := length_le_dumpsMembers (kv :: kvs) ['}']
        obtain ⟨cs, hcs, hread⟩ := readMembers_dumpsMembers (List.cons_ne_nil kv kvs)
          (Nat.lt_succ_of_le hlength) []
        rw [List.length_cons, hcs, skipSpace_cons (by decide)]
        dsimp only
        rw [if_neg (by decide), if_pos rfl, ← hcs, hread, Option.map_some, dictOf_eq]
        have hkeys : (members (kv :: kvs)).map Prod.fst = (kv :: kvs).map Prod.fst := by
          simp [members]
        rwa [hkeys]
  unfold loadsText
  rw [dumps, skipSpace_cons (by decide), ← dumps, hopen]
  rfl

/-! ## The bytes -/

/-- A printable character of ASCII. -/
def Printable (c : Char) : Prop := ' ' ≤ c ∧ c ≤ '~'

theorem printable_hexDigit {d : Nat} (hd : d < 16) : Printable (hexDigit d) := by
  have hall : ∀ d : Fin 16, ' ' ≤ hexDigit d ∧ hexDigit d ≤ '~' := by decide
  exact hall ⟨d, hd⟩

theorem printable_unicodeEscape (n : Nat) : ∀ c ∈ unicodeEscape n, Printable c := by
  intro c hc
  rcases List.mem_cons.mp hc with rfl | hc
  · exact ⟨by decide, by decide⟩
  · obtain ⟨d, hd, rfl⟩ := List.mem_map.mp hc
    exact printable_hexDigit (Radix.digits_lt (by decide) hd)

theorem printable_escapeChar (c : Char) : ∀ d ∈ escapeChar c, Printable d := by
  have hback : Printable '\x5c' := ⟨by decide, by decide⟩
  unfold escapeChar
  cases hshort : shortEscapes.lookup c with
  | some e =>
      have hall : ∀ p ∈ shortEscapes, Printable p.2 := by
        simp [shortEscapes, Printable]
      obtain ⟨before, behind, hlist, -⟩ := List.lookup_eq_some_iff.mp hshort
      have he : Printable e := hall (c, e) (by rw [hlist]; simp)
      exact List.forall_mem_cons.mpr ⟨hback, List.forall_mem_cons.mpr ⟨he, by simp⟩⟩
  | none =>
      dsimp only
      split_ifs with hplain hbmp
      · exact List.forall_mem_cons.mpr ⟨hplain, by simp⟩
      · exact List.forall_mem_cons.mpr ⟨hback, printable_unicodeEscape _⟩
      · refine List.forall_mem_cons.mpr ⟨hback, List.forall_mem_append.mpr
          ⟨printable_unicodeEscape _, List.forall_mem_cons.mpr ⟨hback, printable_unicodeEscape _⟩⟩⟩

theorem printable_quoted {s : String} {rest : List Char} (h : ∀ c ∈ rest, Printable c) :
    ∀ c ∈ quoted s rest, Printable c := by
  have hquote : Printable '\x22' := ⟨by decide, by decide⟩
  refine List.forall_mem_cons.mpr ⟨hquote, List.forall_mem_append.mpr
    ⟨?_, List.forall_mem_cons.mpr ⟨hquote, h⟩⟩⟩
  intro c hc
  obtain ⟨d, -, hd⟩ := List.mem_flatMap.mp hc
  exact printable_escapeChar d c hd

/-- **Whatever the texts are, printable ASCII is written.** -/
theorem printable_dumps (payload : List (String × String)) : ∀ c ∈ dumps payload, Printable c := by
  have hcolon : Printable ':' := ⟨by decide, by decide⟩
  have hcomma : Printable ',' := ⟨by decide, by decide⟩
  have hmembers : ∀ c ∈ dumpsMembers payload ['}'], Printable c := by
    induction payload with
    | nil => exact List.forall_mem_cons.mpr ⟨⟨by decide, by decide⟩, by simp⟩
    | cons kv kvs ih =>
        obtain ⟨key, value⟩ := kv
        cases kvs with
        | nil => exact printable_quoted (List.forall_mem_cons.mpr ⟨hcolon, printable_quoted ih⟩)
        | cons kv' kvs =>
            exact printable_quoted (List.forall_mem_cons.mpr
              ⟨hcolon, printable_quoted (List.forall_mem_cons.mpr ⟨hcomma, ih⟩)⟩)
  exact List.forall_mem_cons.mpr ⟨⟨by decide, by decide⟩, hmembers⟩

/-- A printable character is one byte. -/
theorem encodeUtf8_printable {s : List Char} (h : ∀ c ∈ s, Printable c) :
    ∀ b ∈ encodeUtf8 s, 0x20 ≤ b.toNat ∧ b.toNat ≤ 0x7e := by
  intro b hb
  obtain ⟨c, hc, hmem⟩ := List.mem_flatMap.mp hb
  obtain ⟨hlow, hhigh⟩ := h c hc
  have hlow' : 0x20 ≤ c.val.toNat := hlow
  have hhigh' : c.val.toNat ≤ 0x7e := hhigh
  have hbyte : String.utf8EncodeChar c = [UInt8.ofNat c.val.toNat] := by
    unfold String.utf8EncodeChar
    exact if_pos (by omega)
  rw [hbyte, List.mem_singleton] at hmem
  have hvalue : b.toNat = c.val.toNat := by
    rw [hmem]
    exact Nat.mod_eq_of_lt (by omega)
  rw [hvalue]
  exact ⟨hlow', hhigh'⟩

/-- Bytes of ASCII without zeros are taken for UTF-8. -/
theorem detectEncoding_ascii {b : List UInt8} (h : ∀ x ∈ b, 0x20 ≤ x.toNat ∧ x.toNat ≤ 0x7e) :
    detectEncoding b = .utf8 := by
  have hmark : ∀ (y : UInt8) (ys : List UInt8), ¬ (0x20 ≤ y.toNat ∧ y.toNat ≤ 0x7e) →
      ¬ (y :: ys).isPrefixOf b = true := by
    intro y ys hy hprefix
    exact hy (h y ((List.isPrefixOf_iff_prefix.mp hprefix).subset List.mem_cons_self))
  have hzero : ∀ x ∈ b, x ≠ 0 := by
    rintro x hx rfl
    exact absurd (h 0 hx).1 (by decide)
  unfold detectEncoding
  rw [if_neg (not_or.mpr ⟨hmark _ _ (by decide), hmark _ _ (by decide)⟩),
    if_neg (not_or.mpr ⟨hmark _ _ (by decide), hmark _ _ (by decide)⟩), if_neg (hmark _ _ (by decide))]
  split
  · rw [if_neg (hzero _ (by simp)), if_neg (hzero _ (by simp))]
  · exact if_neg (not_or.mpr ⟨hzero _ (by simp), hzero _ (by simp)⟩)
  · rfl

theorem decodeUtf8_encodeUtf8 (s : List Char) : decodeUtf8 (encodeUtf8 s) = some s := by
  have hbytes : (encodeUtf8 s).toByteArray = (String.ofList s).toByteArray :=
    String.toByteArray_ofList.symm
  have hstring : String.fromUTF8? (String.ofList s).toByteArray = some (String.ofList s) :=
    dif_pos (String.ofList s).isValidUTF8
  unfold decodeUtf8
  rw [hbytes, hstring, Option.map_some, String.toList_ofList]

/-- **The bytes of a dict of texts are read back**, whatever the texts are. -/
theorem loads_encode_dumps {payload : List (String × String)} (h : (payload.map Prod.fst).Nodup) :
    loads (encodeUtf8 (dumps payload)) = some (.obj (members payload)) := by
  unfold loads
  rw [detectEncoding_ascii (encodeUtf8_printable (printable_dumps payload))]
  dsimp only
  rw [decodeUtf8_encodeUtf8, Option.bind_some, loadsText_dumps h]

end Json

end HighLoad
