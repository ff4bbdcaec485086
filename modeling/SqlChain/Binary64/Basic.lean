import SqlChain.Saturating

/-!
# Binary floating point numbers of 64 bits

A number is kept as its bit pattern: a sign, eleven bits of exponent and fifty-two bits of
fraction. Every question about its value is answered on natural numbers, so that nothing depends
on the arithmetic of the machine.
-/

namespace SqlChain

structure Binary64 where
  bits : UInt64
deriving DecidableEq, Repr

namespace Binary64

def signBit : Nat := Nat.pow 2 63

/-- The weight of the bit in front of the fraction, one more than the largest fraction. -/
def leadingBit : Nat := Nat.pow 2 52

def negative (x : Binary64) : Bool := signBit ≤ x.bits.toNat

/-- The exponent field, which is `2047` for the infinities and for every NaN. -/
def biased (x : Binary64) : Nat := x.bits.toNat / leadingBit % 2048

def fraction (x : Binary64) : Nat := x.bits.toNat % leadingBit

def isNaN (x : Binary64) : Bool := x.biased == 2047 && x.fraction != 0

def isInfinite (x : Binary64) : Bool := x.biased == 2047 && x.fraction == 0

def isFinite (x : Binary64) : Bool := x.biased != 2047

def isZero (x : Binary64) : Bool := x.biased == 0 && x.fraction == 0

/-- The integer whose product with `2 ^ x.exponent` is the absolute value of a finite `x`. -/
def mantissa (x : Binary64) : Nat :=
  if x.biased = 0 then x.fraction else x.fraction + leadingBit

def exponent (x : Binary64) : Int :=
  if x.biased = 0 then -1074 else (x.biased : Int) - 1075

/-- The number with this sign whose bits below the sign are `low`. -/
def ofParts (negative : Bool) (low : Nat) : Binary64 :=
  ⟨UInt64.ofNat (low + if negative then signBit else 0)⟩

def zero (negative : Bool) : Binary64 := ofParts negative 0

def infinity (negative : Bool) : Binary64 := ofParts negative (2047 * leadingBit)

def nan (negative : Bool) : Binary64 := ofParts negative (2047 * leadingBit + leadingBit / 2)

/-- Equality of values: a NaN equals nothing, and the two zeros are equal. -/
def equal (x y : Binary64) : Bool :=
  !x.isNaN && !y.isNaN && (x == y || (x.isZero && y.isZero))

def isIntegral (x : Binary64) : Bool :=
  0 ≤ x.exponent || x.mantissa % Nat.pow 2 (-x.exponent).toNat == 0

def truncate (x : Binary64) : Int :=
  let size : Nat :=
    if 0 ≤ x.exponent then x.mantissa * Nat.pow 2 x.exponent.toNat
    else x.mantissa / Nat.pow 2 (-x.exponent).toNat
  if x.negative then -size else size

/-- The nearest 64-bit integer to a finite number without a fractional part. -/
def toInt64 (x : Binary64) : Int64 := saturate x.truncate

/-- The integer a finite number stands for, if it stands for one. Numbers outside the 64-bit range
give the end of the range. -/
def toInt64? (x : Binary64) : Option Int64 :=
  if x.isFinite && x.isIntegral then some x.toInt64 else none

/-- A number that represents its class under the equality in which all NaNs are alike and so are
the two zeros. -/
def canonical (x : Binary64) : Binary64 :=
  if x.isNaN then nan false else if x.isZero then zero false else x

end Binary64

end SqlChain
