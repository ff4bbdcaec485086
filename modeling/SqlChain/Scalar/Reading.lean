import SqlChain.Error

/-!
# Reading scalars as values of one type
-/

namespace SqlChain.Scalar

/-- A boolean, or one of the integers zero and one. -/
def asBool : Scalar → Except Error Bool
  | .boolean b => .ok b
  | .int64 n =>
    if n = 0 then .ok false
    else if n = 1 then .ok true
    else .error (.invalidSetting (.notBoolean (.int64 n)))
  | other => .error (.invalidSetting (.notBoolean other))

/-- An integer, or a finite number that has no fractional part. -/
def asInt64 : Scalar → Except Error Int64
  | .int64 n => .ok n
  | .float64 x =>
    match x.toInt64? with
    | some n => .ok n
    | none => .error (.invalidSetting (.notInteger (.float64 x)))
  | other => .error (.invalidSetting (.notInteger other))

/-- An integer that is not negative. -/
def asNatural (value : Scalar) : Except Error UInt64 := do
  let n ← value.asInt64
  if n < 0 then .error (.invalidSetting (.notNatural n)) else .ok n.toUInt64

def asString : Scalar → Except Error String
  | .utf8 s => .ok s
  | other => .error (.invalidSetting (.notString other))

end SqlChain.Scalar
