import SqlChain.Timestamp.Basic
import SqlChain.Binary64.Reader
import SqlChain.Text.WhiteSpace

/-!
# Reading timestamps

The form is `YYYY-MM-DDThh:mm:ss`, a point and digits if there is a fraction, and `Z` or an offset
`±hh:mm` of less than a day. Numbers of the date and the time may leave out leading zeros and have
white space in front, and so may the marks between them. A year with a sign has any number of
digits. Digits of the fraction after the ninth are cut off. The second may be sixty, which is a leap
second at the end of its minute.
-/

namespace SqlChain

open Binary64 (digitsValue spanDigits)
open Text (dropWhiteSpace isWhiteSpace)

namespace Clock

/-- The clock that shows this. -/
def ofFields? (date : Date) (hour minute second fraction : Nat) : Option Clock :=
  if h : date.isValid ∧ hour < 24 ∧ minute < 60 ∧ second ≤ 60 ∧ fraction < 1000000000 then
    some
      { day := date.dayNumber
        second := 3600 * hour + 60 * minute + min second 59
        nano := fraction + 1000000000 * (second - 59)
        second_lt := by omega
        nano_lt := by omega }
  else none

def leastYear : Int := -262143

def mostYear : Int := 262142

def inReach (c : Clock) : Bool := leastYear ≤ c.date.year && c.date.year ≤ mostYear

end Clock

namespace Timestamp

/-- The value of the digits in front, at least one and at most `most` of them, and the rest. -/
def number? (most : Nat) (cs : List Char) : Option (Nat × List Char) :=
  match spanDigits (cs.take most) with
  | ([], _) => none
  | (ds, rest) => some (digitsValue ds, rest ++ cs.drop most)

def twoDigits? : List Char → Option (Nat × List Char)
  | c :: d :: cs => if c.isDigit ∧ d.isDigit then some (digitsValue [c, d], cs) else none
  | _ => none

/-- The rest after the character `c`. -/
def expect? (c : Char) : List Char → Option (List Char)
  | [] => none
  | d :: cs => if d = c then some cs else none

/-- A year has at most four digits if it has no sign. -/
def year? : List Char → Option (Int × List Char)
  | '+' :: cs => (number? cs.length cs).map fun (n, rest) => (n, rest)
  | '-' :: cs => (number? cs.length cs).map fun (n, rest) => (-n, rest)
  | cs => (number? 4 cs).map fun (n, rest) => (n, rest)

/-- Nanoseconds of a fraction given by its digits. -/
def nanoOfDigits (ds : List Char) : Nat :=
  let kept := ds.take 9
  digitsValue kept * Nat.pow 10 (9 - kept.length)

def fraction? : List Char → Option (Nat × List Char)
  | '.' :: cs =>
    let (ds, rest) := spanDigits cs
    if ds.isEmpty then none else some (nanoOfDigits ds, rest)
  | cs => some (0, cs)

def readDate? (cs : List Char) : Option (Date × List Char) := do
  let (year, cs) ← year? (dropWhiteSpace cs)
  let cs ← expect? '-' (dropWhiteSpace cs)
  let (month, cs) ← number? 2 (dropWhiteSpace cs)
  let cs ← expect? '-' (dropWhiteSpace cs)
  let (day, cs) ← number? 2 (dropWhiteSpace cs)
  return ({ year, month, day }, cs)

def separator? : List Char → Option (List Char)
  | [] => none
  | c :: cs => if c = 'T' ∨ c = 't' ∨ c = ' ' then some cs else none

/-- The clock that shows this date and the time in front of a text, and the rest. -/
def readClock? (date : Date) (cs : List Char) : Option (Clock × List Char) := do
  let (hour, cs) ← number? 2 (dropWhiteSpace cs)
  let cs ← expect? ':' (dropWhiteSpace cs)
  let (minute, cs) ← number? 2 (dropWhiteSpace cs)
  let cs ← expect? ':' (dropWhiteSpace cs)
  let (second, cs) ← number? 2 (dropWhiteSpace cs)
  let (nano, cs) ← fraction? cs
  return (← Clock.ofFields? date hour minute second nano, cs)

/-- A sign in front, and whether it is negative. The minus sign has a character of its own. -/
def offsetSign? : List Char → Option (Bool × List Char)
  | '+' :: cs => some (false, cs)
  | '-' :: cs => some (true, cs)
  | '−' :: cs => some (true, cs)
  | _ => none

/-- Whether a text begins with a word in lower case, whatever the case of its own letters. -/
def beginsWith (word cs : List Char) : Bool := (cs.take word.length).map Char.toLower == word

/-- The offset in seconds, and the rest. It is written in hours and minutes, and colons and white
space may stand between them. Universal time has names of its own. -/
def readOffset? (cs : List Char) : Option (Int × List Char) :=
  if beginsWith ['u', 't', 'c'] cs then some (0, cs.drop 3)
  else if beginsWith ['z'] cs then some (0, cs.drop 1)
  else do
    let (negative, cs) ← offsetSign? cs
    let (hours, cs) ← twoDigits? cs
    let (minutes, cs) ← twoDigits? (cs.dropWhile fun c => c == ':' || isWhiteSpace c)
    guard (minutes < 60)
    let total : Int := 3600 * hours + 60 * minutes
    return (if negative then -total else total, cs)

/-- The timestamp whose local clock shows this. -/
def ofClock? (clock : Clock) (offset : Int) : Option Timestamp :=
  if h : offset.natAbs < 86400 then
    some { utc := clock.shift (-offset), offset := offset, offset_lt := h }
  else none

def readChars? (cs : List Char) : Option Timestamp := do
  let (date, cs) ← readDate? cs
  let cs ← separator? cs
  let (clock, cs) ← readClock? date cs
  let (offset, cs) ← readOffset? (dropWhiteSpace cs)
  guard (dropWhiteSpace cs).isEmpty
  let t ← ofClock? clock offset
  guard (clock.inReach && t.utc.inReach)
  return t

def ofText? (s : String) : Option Timestamp := readChars? s.toList

end Timestamp

end SqlChain
