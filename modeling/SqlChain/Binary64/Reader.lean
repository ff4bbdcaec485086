import SqlChain.Binary64.Rounding

/-!
# Reading decimal numerals

An optional sign, then digits with at most one point among them and an optional exponent, or one
of the words for the infinities and for NaN in any case. The numeral is rounded correctly.
-/

namespace SqlChain.Binary64

def digitsValue (ds : List Char) : Nat :=
  ds.foldl (fun n c => 10 * n + (c.toNat - '0'.toNat)) 0

/-- The leading digits and the rest. -/
def spanDigits (cs : List Char) : List Char × List Char :=
  (cs.takeWhile Char.isDigit, cs.dropWhile Char.isDigit)

/-- A leading sign and the rest. -/
def spanSign : List Char → Bool × List Char
  | '-' :: cs => (true, cs)
  | '+' :: cs => (false, cs)
  | cs => (false, cs)

/-- The exponent after the digits; no text stands for the exponent zero. -/
def readExponent? : List Char → Option Int
  | [] => some 0
  | c :: cs =>
    if c = 'e' ∨ c = 'E' then
      let (negative, rest) := spanSign cs
      match spanDigits rest with
      | (d :: ds, []) =>
        let n := digitsValue (d :: ds)
        some (if negative then -n else n)
      | _ => none
    else none

/-- The value of a numeral without sign. -/
def readMagnitude? (negative : Bool) (cs : List Char) : Option Binary64 :=
  let (whole, rest) := spanDigits cs
  let (places, rest) :=
    match rest with
    | '.' :: rest => spanDigits rest
    | rest => ([], rest)
  if whole.isEmpty && places.isEmpty then none
  else
    (readExponent? rest).map fun e =>
      ofDecimal negative (digitsValue (whole ++ places)) (e - places.length)

def ofText? (s : String) : Option Binary64 :=
  let (negative, cs) := spanSign s.toList
  let word := String.ofList (cs.map Char.toLower)
  if word = "inf" || word = "infinity" then some (infinity negative)
  else if word = "nan" then some (nan negative)
  else readMagnitude? negative cs

end SqlChain.Binary64
