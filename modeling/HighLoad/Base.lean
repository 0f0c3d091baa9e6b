/-
# HighLoad.Base — exceptions, UUIDs and timestamps

The value types every subsystem shares: the exceptions a Python function can raise, with their
texts, `uuid.UUID` as its 128-bit integer, and `datetime.datetime` as its seven fields in
chronological order.
-/
import HighLoad.Lib.Sha256
import Mathlib.Order.Basic
import Mathlib.Order.Lattice.Nat

namespace HighLoad

/-- The exceptions raised by the modelled code, with their message. -/
inductive PyError where
  | runtimeError (message : String)
  | valueError (message : String)
  | indexError (message : String)
  | keyError (key : String)
  | httpException (status : Nat) (detail : String)
  | requestValidationError
  | integrityError (message : String)
  | databaseError (message : String)
  | redisError (message : String)
  | amqpError (message : String)
  deriving DecidableEq, Repr

/-! ## UUIDs -/

/-- `uuid.UUID`: a 128-bit integer. -/
structure Uuid where
  int : Nat
  int_lt : int < 2 ^ 128
  deriving DecidableEq

namespace Uuid

/-- `UUID(int=n)`. -/
def ofNat (n : Nat) : Uuid := ⟨n % 2 ^ 128, Nat.mod_lt _ (by decide)⟩

@[ext] theorem ext {u v : Uuid} (h : u.int = v.int) : u = v := by
  cases u
  cases v
  cases h
  rfl

/-- `UUID.bytes`: the 16 big-endian bytes of the integer. -/
def bytes (u : Uuid) : List UInt8 := Sha256.beBytes 16 u.int

@[simp] theorem length_bytes (u : Uuid) : u.bytes.length = 16 := by simp [bytes]

theorem bytes_injective : Function.Injective Uuid.bytes := fun u v h =>
  Uuid.ext (Sha256.beBytes_inj (by simpa using u.int_lt) (by simpa using v.int_lt) h)

end Uuid

/-! ## Timestamps -/

/-- The number of days of a month of the proleptic Gregorian calendar. -/
def daysInMonth (year month : Nat) : Nat :=
  if month = 2 then
    if year % 4 = 0 ∧ (year % 100 ≠ 0 ∨ year % 400 = 0) then 29 else 28
  else if month = 4 ∨ month = 6 ∨ month = 9 ∨ month = 11 then 30
  else 31

theorem daysInMonth_le (year month : Nat) : daysInMonth year month ≤ 31 := by
  unfold daysInMonth
  split_ifs <;> omega

/-! A year, its first month, the first days of it and noon; the sample runs take place then. -/

theorem year_range_2024 : 1 ≤ 2024 ∧ 2024 ≤ 9999 := by decide

theorem january_range : 1 ≤ 1 ∧ 1 ≤ 12 := by decide

theorem noon_lt_midnight : 12 < 24 := by decide

theorem zero_lt_sixty : 0 < 60 := by decide

theorem zero_lt_million : 0 < 1000000 := by decide

theorem first_day : 1 ≤ 1 ∧ 1 ≤ 31 := by decide

theorem second_day : 1 ≤ 2 ∧ 2 ≤ 31 := by decide

theorem third_day : 1 ≤ 3 ∧ 3 ≤ 31 := by decide

theorem fourth_day : 1 ≤ 4 ∧ 4 ≤ 31 := by decide

theorem fifth_day : 1 ≤ 5 ∧ 5 ≤ 31 := by decide

/-- `datetime.datetime` without its time zone: years 1 to 9999, microsecond precision. -/
structure DateTime where
  year : Nat
  month : Nat
  day : Nat
  hour : Nat
  minute : Nat
  second : Nat
  microsecond : Nat
  year_range : 1 ≤ year ∧ year ≤ 9999 := by decide
  month_range : 1 ≤ month ∧ month ≤ 12 := by decide
  day_range : 1 ≤ day ∧ day ≤ daysInMonth year month := by decide
  hour_lt : hour < 24 := by decide
  minute_lt : minute < 60 := by decide
  second_lt : second < 60 := by decide
  microsecond_lt : microsecond < 1000000 := by decide

namespace DateTime

/-- The fields packed into one number, most significant first; it grows with time. -/
def ticks (t : DateTime) : Nat :=
  (((((t.year * 13 + t.month) * 32 + t.day) * 24 + t.hour) * 60 + t.minute) * 60 + t.second)
    * 1000000 + t.microsecond

theorem ticks_injective : Function.Injective ticks := by
  rintro ⟨y, mo, d, h, mi, s, us, hy, hmo, hd, hh, hmi, hs, hus⟩
    ⟨y', mo', d', h', mi', s', us', hy', hmo', hd', hh', hmi', hs', hus'⟩ heq
  have hd31 := hd.2.trans (daysInMonth_le y mo)
  have hd31' := hd'.2.trans (daysInMonth_le y' mo')
  simp only [ticks] at heq
  -- one field at a time: each is the remainder of the packed number below it
  obtain ⟨heq, rfl⟩ : ((((y * 13 + mo) * 32 + d) * 24 + h) * 60 + mi) * 60 + s
      = ((((y' * 13 + mo') * 32 + d') * 24 + h') * 60 + mi') * 60 + s' ∧ us = us' := by omega
  obtain ⟨heq, rfl⟩ : (((y * 13 + mo) * 32 + d) * 24 + h) * 60 + mi
      = (((y' * 13 + mo') * 32 + d') * 24 + h') * 60 + mi' ∧ s = s' := by omega
  obtain ⟨heq, rfl⟩ : ((y * 13 + mo) * 32 + d) * 24 + h
      = ((y' * 13 + mo') * 32 + d') * 24 + h' ∧ mi = mi' := by omega
  obtain ⟨heq, rfl⟩ : (y * 13 + mo) * 32 + d = (y' * 13 + mo') * 32 + d' ∧ h = h' := by omega
  obtain ⟨heq, rfl⟩ : y * 13 + mo = y' * 13 + mo' ∧ d = d' := by omega
  obtain ⟨rfl, rfl⟩ : y = y' ∧ mo = mo' := by omega
  rfl

/-- `datetime` values compare chronologically. -/
instance : LinearOrder DateTime := LinearOrder.lift' ticks ticks_injective

theorem lt_iff_ticks {s t : DateTime} : s < t ↔ s.ticks < t.ticks := Iff.rfl

end DateTime

end HighLoad
