import SqlChain.Timestamp.Basic
import SqlChain.Text.Padded

/-!
# Timestamps in text

Date, `T`, time and offset, as in RFC 3339. The fraction has the fewest of 0, 3, 6 or 9 digits
that are exact, and a year outside four digits has a sign. An offset is written in whole minutes, the
nearest ones if it is not one of them. Universal time can also be written by a pattern.
-/

namespace SqlChain

open Text

def yearText (year : Int) : String :=
  if 0 ≤ year ∧ year ≤ 9999 then padded 4 year.toNat
  else (if year < 0 then "-" else "+") ++ padded 4 year.natAbs

def fractionText (nano : Nat) : String :=
  if nano = 0 then ""
  else if nano % 1000000 = 0 then "." ++ padded 3 (nano / 1000000)
  else if nano % 1000 = 0 then "." ++ padded 6 (nano / 1000)
  else "." ++ padded 9 nano

/-- A part of a pattern for universal time. -/
inductive TimePart where
  | year | month | day | hour | minute | second
  /-- The fraction of the second, with the point in front of it. -/
  | fraction
  | text (s : String)
deriving DecidableEq, Repr

/-- Date, `T`, time and `Z`. -/
def TimePart.universal : List TimePart :=
  [.year, .text "-", .month, .text "-", .day, .text "T", .hour, .text ":", .minute, .text ":",
    .second, .fraction, .text "Z"]

namespace Clock

/-- Date and time without an offset. -/
def clockText (c : Clock) : String :=
  yearText c.date.year ++ "-" ++ padded 2 c.date.month ++ "-" ++ padded 2 c.date.day ++ "T" ++
    padded 2 c.hour ++ ":" ++ padded 2 c.minute ++ ":" ++ padded 2 c.secondOfMinute ++
    fractionText c.fraction

/-- What a part of a pattern stands for. -/
def part (c : Clock) : TimePart → String
  | .year => yearText c.date.year
  | .month => padded 2 c.date.month
  | .day => padded 2 c.date.day
  | .hour => padded 2 c.hour
  | .minute => padded 2 c.minute
  | .second => padded 2 c.secondOfMinute
  | .fraction => fractionText c.fraction
  | .text s => s

def format (c : Clock) (pattern : List TimePart) : String := String.join (pattern.map c.part)

theorem format_universal (c : Clock) : c.format TimePart.universal = c.clockText ++ "Z" := by
  simp [format, TimePart.universal, part, clockText, String.join]

end Clock

/-- Hours and minutes of an offset given in seconds. -/
def offsetText (seconds : Int) : String :=
  let minutes := (seconds.natAbs + 30) / 60
  (if seconds < 0 then "-" else "+") ++ padded 2 (minutes / 60) ++ ":" ++ padded 2 (minutes % 60)

namespace Timestamp

/-- The timestamp at its own offset. -/
def text (t : Timestamp) : String := t.clock.clockText ++ offsetText t.offset

/-- The timestamp at its own offset, with `Z` for the offset zero. -/
def briefText (t : Timestamp) : String :=
  t.clock.clockText ++ if t.offset = 0 then "Z" else offsetText t.offset

end Timestamp

end SqlChain
