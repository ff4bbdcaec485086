import SqlChain.Binary64.Basic

/-!
# Shortest decimal text

A finite number is written with the fewest digits that still round to it, and of those with the
ones nearest to it. The interval of reals that round to `m * 2 ^ e` reaches half a last place to
either side, a quarter below a power of two; its ends belong to it when `m` is even. The fewest
digits come from the largest power of ten that has a multiple in the interval.
-/

namespace SqlChain.Binary64

/-- Distances in quarters of the last place from `m * 2 ^ e` to the lower end of its interval. -/
def quartersBelow (m : Nat) (e : Int) : Nat :=
  if m = leadingBit ∧ -1074 < e then 1 else 2

/-- The multiple of `10 ^ p` nearest to `m * 2 ^ e` within its interval, as a count of `10 ^ p`.
A tie goes up. -/
def multipleWithin? (m : Nat) (e p : Int) : Option Nat :=
  let a := Nat.pow 2 (e - 2).toNat * Nat.pow 10 (-p).toNat
  let b := Nat.pow 2 (2 - e).toNat * Nat.pow 10 p.toNat
  let value := 4 * m * a
  let low := (4 * m - quartersBelow m e) * a
  let high := (4 * m + 2) * a
  let below := value / b
  let closed := m % 2 == 0
  let belowIn := low < below * b || (closed && low == below * b)
  let aboveIn := (below + 1) * b < high || (closed && (below + 1) * b == high)
  if belowIn && aboveIn then
    some (if 2 * (value % b) < b then below else below + 1)
  else if belowIn then some below
  else if aboveIn then some (below + 1)
  else none

/-- A power of ten above every number in the interval of `m * 2 ^ e`. -/
def decimalCeiling (m : Nat) (e : Int) : Int :=
  ((m.log2 : Int) + 2 + e) * 30103 / 100000 + 1

/-- A count and a power of ten whose product is the shortest decimal that rounds to
`m * 2 ^ e`. -/
def shortest (m : Nat) (e : Int) : Nat × Int :=
  let top := decimalCeiling m e
  ((List.range 20).findSome? fun (i : Nat) =>
    (multipleWithin? m e (top - i)).map (·, top - (i : Int))).getD (0, 0)

/-- `count * 10 ^ p` written out in full, with a point only before a fraction. -/
def positional (count : Nat) (p : Int) : List Char :=
  let digits := Nat.toDigits 10 count
  if 0 ≤ p then digits ++ List.replicate p.toNat '0'
  else
    let places := (-p).toNat
    if places < digits.length then
      digits.take (digits.length - places) ++ '.' :: digits.drop (digits.length - places)
    else '0' :: '.' :: (List.replicate (places - digits.length) '0' ++ digits)

/-- The text of the absolute value of a finite number. -/
def magnitudeText (x : Binary64) : List Char :=
  if x.isZero then ['0']
  else
    let (count, p) := shortest x.mantissa x.exponent
    positional count p

/-- The text of a number, never with an exponent. -/
def text (x : Binary64) : String :=
  if x.isNaN then "NaN"
  else
    let sign := if x.negative then ['-'] else []
    if x.isInfinite then String.ofList (sign ++ ['i', 'n', 'f'])
    else String.ofList (sign ++ x.magnitudeText)

end SqlChain.Binary64
