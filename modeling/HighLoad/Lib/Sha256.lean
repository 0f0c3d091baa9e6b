/-
# HighLoad.Lib.Sha256 — the SHA-256 hash function on byte strings

The executable hash behind `hashlib.sha256(payload).digest()`: padding to 64-byte blocks, the
message schedule, 64 compression rounds a block. Everything recurses structurally, so the kernel
can run it. The one general fact the users of the digest need is its fixed length.
-/
import HighLoad.Lib.Radix

namespace HighLoad.Sha256

/-- A 32-bit word; all additions are modulo `2 ^ 32`. -/
abbrev Word := BitVec 32

/-- The 64 round constants. -/
def roundConstants : List Word :=
  [0x428a2f98, 0x71374491, 0xb5c0fbcf, 0xe9b5dba5, 0x3956c25b, 0x59f111f1, 0x923f82a4, 0xab1c5ed5,
   0xd807aa98, 0x12835b01, 0x243185be, 0x550c7dc3, 0x72be5d74, 0x80deb1fe, 0x9bdc06a7, 0xc19bf174,
   0xe49b69c1, 0xefbe4786, 0x0fc19dc6, 0x240ca1cc, 0x2de92c6f, 0x4a7484aa, 0x5cb0a9dc, 0x76f988da,
   0x983e5152, 0xa831c66d, 0xb00327c8, 0xbf597fc7, 0xc6e00bf3, 0xd5a79147, 0x06ca6351, 0x14292967,
   0x27b70a85, 0x2e1b2138, 0x4d2c6dfc, 0x53380d13, 0x650a7354, 0x766a0abb, 0x81c2c92e, 0x92722c85,
   0xa2bfe8a1, 0xa81a664b, 0xc24b8b70, 0xc76c51a3, 0xd192e819, 0xd6990624, 0xf40e3585, 0x106aa070,
   0x19a4c116, 0x1e376c08, 0x2748774c, 0x34b0bcb5, 0x391c0cb3, 0x4ed8aa4a, 0x5b9cca4f, 0x682e6ff3,
   0x748f82ee, 0x78a5636f, 0x84c87814, 0x8cc70208, 0x90befffa, 0xa4506ceb, 0xbef9a3f7, 0xc67178f2]

/-- The eight working variables. -/
structure Working where
  a : Word
  b : Word
  c : Word
  d : Word
  e : Word
  f : Word
  g : Word
  h : Word
  deriving DecidableEq

/-- The initial hash value. -/
def initial : Working where
  a := 0x6a09e667
  b := 0xbb67ae85
  c := 0x3c6ef372
  d := 0xa54ff53a
  e := 0x510e527f
  f := 0x9b05688c
  g := 0x1f83d9ab
  h := 0x5be0cd19

def ch (x y z : Word) : Word := (x &&& y) ^^^ (~~~x &&& z)
def maj (x y z : Word) : Word := (x &&& y) ^^^ (x &&& z) ^^^ (y &&& z)
def bigSigma0 (x : Word) : Word := x.rotateRight 2 ^^^ x.rotateRight 13 ^^^ x.rotateRight 22
def bigSigma1 (x : Word) : Word := x.rotateRight 6 ^^^ x.rotateRight 11 ^^^ x.rotateRight 25
def smallSigma0 (x : Word) : Word := x.rotateRight 7 ^^^ x.rotateRight 18 ^^^ (x >>> 3)
def smallSigma1 (x : Word) : Word := x.rotateRight 17 ^^^ x.rotateRight 19 ^^^ (x >>> 10)

/-- `n` more words of the message schedule, on a schedule kept newest word first. -/
def expand : Nat → List Word → List Word
  | 0, ws => ws
  | n + 1, ws =>
      expand n ((smallSigma1 (ws.getD 1 0) + ws.getD 6 0 + smallSigma0 (ws.getD 14 0)
        + ws.getD 15 0) :: ws)

/-- One compression round with round constant `k` and schedule word `w`. -/
def roundStep (s : Working) (k w : Word) : Working :=
  let t1 := s.h + bigSigma1 s.e + ch s.e s.f s.g + k + w
  let t2 := bigSigma0 s.a + maj s.a s.b s.c
  { a := t1 + t2, b := s.a, c := s.b, d := s.c, e := s.d + t1, f := s.e, g := s.f, h := s.g }

/-- The big-endian word of four bytes. -/
def beWord (bytes : List UInt8) : Word :=
  BitVec.ofNat 32 (Radix.ofDigits 256 (bytes.map UInt8.toNat))

/-- The first `n` words of a byte string. -/
def words : Nat → List UInt8 → List Word
  | 0, _ => []
  | n + 1, bytes => beWord (bytes.take 4) :: words n (bytes.drop 4)

/-- The compression of one 64-byte block into the hash value. -/
def compress (s : Working) (block : List UInt8) : Working :=
  let ws := (expand 48 (words 16 block).reverse).reverse
  let r := (roundConstants.zip ws).foldl (fun s kw => roundStep s kw.1 kw.2) s
  { a := s.a + r.a, b := s.b + r.b, c := s.c + r.c, d := s.d + r.d,
    e := s.e + r.e, f := s.f + r.f, g := s.g + r.g, h := s.h + r.h }

/-- `n` on `width` big-endian bytes. -/
def beBytes (width n : Nat) : List UInt8 :=
  (Radix.digits 256 width n).map UInt8.ofNat

/-- The message, a one bit, zeros up to 56 bytes modulo 64, and the length in bits on 8 bytes. -/
def pad (message : List UInt8) : List UInt8 :=
  message ++ 0x80 :: List.replicate ((119 - message.length % 64) % 64) 0
    ++ beBytes 8 (8 * message.length)

/-- The hash value after `n` blocks. -/
def blocks : Nat → List UInt8 → Working → Working
  | 0, _, s => s
  | n + 1, message, s => blocks n (message.drop 64) (compress s (message.take 64))

/-- The hash value as 32 bytes. -/
def output (s : Working) : List UInt8 :=
  [s.a, s.b, s.c, s.d, s.e, s.f, s.g, s.h].flatMap fun w => beBytes 4 w.toNat

/-- `hashlib.sha256(message).digest()`. -/
def sha256 (message : List UInt8) : List UInt8 :=
  output (blocks ((pad message).length / 64) (pad message) initial)

@[simp] theorem length_beBytes (width n : Nat) : (beBytes width n).length = width := by
  simp [beBytes]

/-- Every digest has 32 bytes. -/
@[simp] theorem length_sha256 (message : List UInt8) : (sha256 message).length = 32 := by
  simp [sha256, output]

/-- Big-endian bytes determine the number, for numbers that fit the width. -/
theorem beBytes_inj {width m n : Nat} (hm : m < 256 ^ width) (hn : n < 256 ^ width)
    (h : beBytes width m = beBytes width n) : m = n := by
  refine Radix.digits_inj hm hn ?_
  have hback : ∀ k, (beBytes width k).map UInt8.toNat = Radix.digits 256 width k := by
    intro k
    rw [beBytes, List.map_map]
    refine (List.map_congr_left fun d hd => ?_).trans (List.map_id _)
    have : d < 256 := Radix.digits_lt (by decide) hd
    simp [Nat.mod_eq_of_lt this]
  rw [← hback m, ← hback n, h]

-- The published test vector for the three bytes `abc`.
example : sha256 [0x61, 0x62, 0x63] =
    [0xba, 0x78, 0x16, 0xbf, 0x8f, 0x01, 0xcf, 0xea, 0x41, 0x41, 0x40, 0xde, 0x5d, 0xae, 0x22, 0x23,
     0xb0, 0x03, 0x61, 0xa3, 0x96, 0x17, 0x7a, 0x9c, 0xb4, 0x10, 0xff, 0x61, 0xf2, 0x00, 0x15, 0xad] := by
  decide +kernel

end HighLoad.Sha256
