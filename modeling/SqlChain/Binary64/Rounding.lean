import SqlChain.Binary64.Basic

/-!
# Rounding to 64 bits

The nearest number to a ratio of two natural numbers, a tie going to the even mantissa. Products,
quotients and decimal numerals are rounded through it.
-/

namespace SqlChain.Binary64

/-- `num / den` rounded to the nearest integer, a half going to the even neighbour. -/
def roundHalfEven (num den : Nat) : Nat :=
  let rest := num % den
  if 2 * rest < den then num / den
  else if den < 2 * rest then num / den + 1
  else num / den + num / den % 2

/-- The ratio `num / den` divided by `2 ^ e`, again as a ratio. -/
def scaled (num den : Nat) (e : Int) : Nat × Nat :=
  if 0 ≤ e then (num, den * Nat.pow 2 e.toNat) else (num * Nat.pow 2 (-e).toNat, den)

/-- The exponent of the last place of the numbers around `num / den`. -/
def lastPlace (num den : Nat) : Int :=
  let k : Int := num.log2 - den.log2
  let (n, d) := scaled num den k
  max (if n < d then k - 53 else k - 52) (-1074)

/-- The number nearest to `num / den`, an infinity beyond the largest finite one. -/
def ofRatio (negative : Bool) (num den : Nat) : Binary64 :=
  if num = 0 then zero negative
  else
    let e := lastPlace num den
    let (n, d) := scaled num den e
    ofParts negative
      (min ((e + 1074).toNat * leadingBit + roundHalfEven n d) (2047 * leadingBit))

def ofNat (n : Nat) : Binary64 := ofRatio false n 1

/-- The number nearest to `digits * 10 ^ e`. -/
def ofDecimal (negative : Bool) (digits : Nat) (e : Int) : Binary64 :=
  let magnitude : Int := e + (Nat.toDigits 10 digits).length
  if digits = 0 || magnitude < -330 then zero negative
  else if 310 < magnitude then infinity negative
  else if 0 ≤ e then ofRatio negative (digits * Nat.pow 10 e.toNat) 1
  else ofRatio negative digits (Nat.pow 10 (-e).toNat)

/-- The rounded product of the absolute values of two finite numbers. -/
def mul (x y : Binary64) : Binary64 :=
  let (n, d) := scaled (x.mantissa * y.mantissa) 1 (-(x.exponent + y.exponent))
  ofRatio false n d

/-- The rounded quotient of the absolute values of two finite numbers. -/
def div (x y : Binary64) : Binary64 :=
  let (n, d) := scaled x.mantissa y.mantissa (y.exponent - x.exponent)
  ofRatio false n d

def powerOfTen (n : Nat) : Binary64 := ofDecimal false 1 n

/-- The quotient by `10 ^ n`, taken in steps of at most `10 ^ 308`, each of them rounded. -/
def divPowerOfTen (x : Binary64) (n : Nat) : Binary64 :=
  if n ≤ 308 then x.div (powerOfTen n)
  else if x.isZero then x
  else (x.div (powerOfTen 308)).divPowerOfTen (n - 308)
termination_by n
decreasing_by omega

end SqlChain.Binary64
