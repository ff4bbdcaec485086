import SqlChain.Calendar

/-!
# Clocks and timestamps

A clock shows a day, a second of that day, and how many nanoseconds ago this second began. A leap
second has no number among the 86400 of its day: it is the second billion of nanoseconds of the
second in front of it. A clock may show one behind every second, since at an offset that is not in
whole minutes the last second of a minute is another one. A timestamp is what the clock of
universal time shows, together with the offset at which it was written down. The offset changes how
it is written but not which timestamp it equals.
-/

namespace SqlChain

structure Clock where
  /-- Days from the first of March of year zero. -/
  day : Int
  second : Nat
  nano : Nat
  second_lt : second < 86400
  nano_lt : nano < 2000000000
deriving DecidableEq, Repr

namespace Clock

/-- A clock that is ahead by this many seconds. -/
def shift (c : Clock) (seconds : Int) : Clock :=
  let total : Int := c.second + seconds
  { day := c.day + total / 86400
    second := (total % 86400).toNat
    nano := c.nano
    second_lt := by omega
    nano_lt := c.nano_lt }

def date (c : Clock) : Date := Date.ofDayNumber c.day

def hour (c : Clock) : Nat := c.second / 3600

def minute (c : Clock) : Nat := c.second / 60 % 60

/-- The second of the minute as it is written. A leap second is written as one more than the second
in front of it, which is sixty at the end of a minute. -/
def secondOfMinute (c : Clock) : Nat := c.second % 60 + c.nano / 1000000000

def fraction (c : Clock) : Nat := c.nano % 1000000000

end Clock

structure Timestamp where
  /-- What the clock of universal time shows. -/
  utc : Clock
  /-- Seconds that the local clock is ahead. -/
  offset : Int
  offset_lt : offset.natAbs < 86400
deriving DecidableEq, Repr

namespace Timestamp

/-- What the local clock shows. -/
def clock (t : Timestamp) : Clock := t.utc.shift t.offset

/-- Two timestamps are the same when the clock of universal time shows the same. -/
def equal (s t : Timestamp) : Bool := s.utc == t.utc

/-- The same timestamp at offset zero. -/
def universal (t : Timestamp) : Timestamp :=
  { utc := t.utc, offset := 0, offset_lt := by decide }

theorem equal_iff_universal_eq (s t : Timestamp) :
    s.equal t = true ↔ s.universal = t.universal := by
  simp [equal, universal]

end Timestamp

end SqlChain
