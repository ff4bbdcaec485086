import SqlChain.Binary64.Reader
import SqlChain.Json.Basic

/-!
# Reading JSON numbers

Digits are collected as long as they fit into 64 bits, and the rest of them only counts for the
exponent. The number is then scaled by a power of ten, which rounds a second time. A number beyond
the largest finite one has no value.
-/

namespace SqlChain.JsonNumber

open Binary64 (digitsValue spanDigits spanSign)

/-- Append digits to a number while the result fits into 64 bits. Gives the number and how many
digits it took. -/
def collect (n : Nat) (taken : Nat) : List Char → Nat × Nat
  | [] => (n, taken)
  | c :: cs =>
    let next := 10 * n + digitsValue [c]
    if next < UInt64.size then collect next (taken + 1) cs else (n, taken)

/-- The absolute value of `significand * 10 ^ e`. -/
def scale (significand : Nat) (e : Int) : Option Binary64 :=
  let x := Binary64.ofNat significand
  if e < 0 then some (x.divPowerOfTen (-e).toNat)
  else if x.isZero then some x
  else if 308 < e then none
  else
    let y := x.mul (Binary64.powerOfTen e.toNat)
    if y.isInfinite then none else some y

def signed (negative : Bool) (x : Binary64) : Binary64 := .ofParts negative x.bits.toNat

/-- A number from the digits before and behind the point and the exponent. -/
def ofDigits (negative : Bool) (whole places : List Char) (e : Int) : Option Binary64 :=
  let (n, taken) := collect 0 0 whole
  let (significand, placesTaken) := collect n 0 places
  (scale significand (e + (whole.length - taken : Nat) - placesTaken)).map (signed negative)

/-- The value of a numeral without fraction and exponent. The negative zero is a float. -/
def ofWhole (negative : Bool) (whole : List Char) : Option JsonNumber :=
  let n := digitsValue whole
  if negative then
    if n ≠ 0 ∧ n ≤ Int64.minValue.toInt.natAbs then some (.integer (-n))
    else (ofDigits true whole [] 0).map .float
  else if n < UInt64.size then some (.integer n)
  else (ofDigits false whole [] 0).map .float

/-- The digits before the point, without a zero in front of others. -/
def whole? (cs : List Char) : Option (List Char × List Char) :=
  match spanDigits cs with
  | (['0'], rest) => some (['0'], rest)
  | ('0' :: _, _) => none
  | ([], _) => none
  | (ds, rest) => some (ds, rest)

/-- The digits behind a point, at least one of them, if there is a point. -/
def places? : List Char → Option (Option (List Char) × List Char)
  | '.' :: cs =>
    match spanDigits cs with
    | ([], _) => none
    | (ds, rest) => some (some ds, rest)
  | cs => some (none, cs)

/-- The exponent, if there is one. -/
def exponent? : List Char → Option (Option Int × List Char)
  | [] => some (none, [])
  | c :: cs =>
    if c = 'e' ∨ c = 'E' then
      let (negative, rest) := spanSign cs
      match spanDigits rest with
      | ([], _) => none
      | (ds, rest) =>
        let n : Int := digitsValue ds
        some (some (if negative then -n else n), rest)
    else some (none, c :: cs)

/-- A number in front of a text with its value, if it has one, and the rest of the text. -/
def read? (cs : List Char) : Option (Option JsonNumber × List Char) := do
  let (negative, cs) :=
    match cs with
    | '-' :: cs => (true, cs)
    | cs => (false, cs)
  let (whole, cs) ← whole? cs
  let (places, cs) ← places? cs
  let (e, cs) ← exponent? cs
  match places, e with
  | none, none => return (ofWhole negative whole, cs)
  | places, e =>
    return ((ofDigits negative whole (places.getD []) (e.getD 0)).map .float, cs)

end SqlChain.JsonNumber
