import SqlChain.Binary64.Shortest
import SqlChain.Timestamp.Text

/-!
# Scalar values

A scalar is a literal of an expression or a cell of a row. Two equalities are used. Ordinary
equality follows the numbers, so that a NaN differs from itself. Keys of groups are compared so
that nulls and NaNs are equal to each other; `keyEqual_iff` says that this is equality of
`canonical` forms, whence it is an equivalence.
-/

namespace SqlChain

inductive Scalar where
  | null
  | boolean (value : Bool)
  | int64 (value : Int64)
  | float64 (value : Binary64)
  | utf8 (value : String)
  | timestamp (value : Timestamp)
deriving DecidableEq, Repr

namespace Scalar

def isNull : Scalar → Bool
  | .null => true
  | _ => false

def text : Scalar → String
  | .null => "NULL"
  | .boolean true => "true"
  | .boolean false => "false"
  | .int64 n => toString n.toInt
  | .float64 x => x.text
  | .utf8 s => s
  | .timestamp t => t.text

/-- Ordinary equality. -/
def equal : Scalar → Scalar → Bool
  | .float64 x, .float64 y => x.equal y
  | .timestamp s, .timestamp t => s.equal t
  | x, y => x == y

/-- Equality of values as parts of a group key. -/
def keyEqual : Scalar → Scalar → Bool
  | .float64 x, .float64 y => (x.isNaN && y.isNaN) || x.equal y
  | x, y => x.equal y

/-- One value for every class of equal keys. -/
def canonical : Scalar → Scalar
  | .float64 x => .float64 x.canonical
  | .timestamp t => .timestamp t.universal
  | x => x

end Scalar

namespace Binary64

theorem isZero_of_canonical {x y : Binary64} (hx : x.isNaN = false) (hy : y.isNaN = false)
    (h : x.canonical = y.canonical) : x = y ∨ (x.isZero = true ∧ y.isZero = true) := by
  have zero_isZero : (zero false).isZero = true := by decide
  unfold canonical at h
  rw [hx, hy] at h
  cases zx : x.isZero <;> cases zy : y.isZero <;> simp [zx, zy] at h
  · exact .inl h
  · rw [h, zero_isZero] at zx
    cases zx
  · rw [← h, zero_isZero] at zy
    cases zy
  · exact .inr ⟨rfl, rfl⟩

theorem isNaN_canonical (x : Binary64) : x.canonical.isNaN = x.isNaN := by
  have nan_isNaN : (nan false).isNaN = true := by decide
  have zero_isNaN : (zero false).isNaN = false := by decide
  unfold canonical
  cases h : x.isNaN
  · cases z : x.isZero <;> simp [h, zero_isNaN]
  · simp [nan_isNaN]

theorem canonical_eq_iff (x y : Binary64) :
    ((x.isNaN && y.isNaN) || x.equal y) = true ↔ x.canonical = y.canonical := by
  constructor
  · intro h
    cases hx : x.isNaN <;> cases hy : y.isNaN <;> simp [hx, hy, equal] at h
    · rcases h with h | ⟨zx, zy⟩
      · rw [h]
      · simp [canonical, hx, hy, zx, zy]
    · simp [canonical, hx, hy]
  · intro h
    have same : x.isNaN = y.isNaN := by rw [← isNaN_canonical x, h, isNaN_canonical]
    cases hx : x.isNaN
    · have hy : y.isNaN = false := same ▸ hx
      rcases isZero_of_canonical hx hy h with h | ⟨zx, zy⟩
      · simp [equal, h, hy]
      · simp [equal, hx, hy, zx, zy]
    · simp [same ▸ hx]

end Binary64

namespace Scalar

theorem keyEqual_iff (x y : Scalar) : x.keyEqual y = true ↔ x.canonical = y.canonical := by
  cases x <;> cases y <;>
    simp [keyEqual, equal, canonical, Timestamp.equal_iff_universal_eq,
      ← Binary64.canonical_eq_iff]

end Scalar

/-- The values of the grouping columns of a row. -/
abbrev GroupKey := List Scalar

namespace GroupKey

/-- Keys are equal when they have the same length and equal values. -/
def equal : GroupKey → GroupKey → Bool
  | [], [] => true
  | x :: xs, y :: ys => x.keyEqual y && equal xs ys
  | _, _ => false

def canonical (key : GroupKey) : GroupKey := key.map Scalar.canonical

theorem equal_iff (xs ys : GroupKey) : equal xs ys = true ↔ canonical xs = canonical ys := by
  induction xs generalizing ys with
  | nil => cases ys <;> simp [equal, canonical]
  | cons x xs ih => cases ys <;> simp [equal, canonical, Scalar.keyEqual_iff, ih] at *

def text (key : GroupKey) : String :=
  "(" ++ String.intercalate ", " (key.map Scalar.text) ++ ")"

end GroupKey

end SqlChain
