import SqlChain.Error
import SqlChain.RowSet

/-!
# Computations on groups

A client computes a value from every group. Its computations may share a state, may fail, and may
ask for the traversal to be cancelled.
-/

namespace SqlChain

/-- The rows of one complete group. -/
structure Group where
  /-- The place of the group among the labels. -/
  index : Nat
  /-- The values of the grouping columns, none if there are no such columns. -/
  key : GroupKey
  rows : RowSet
deriving DecidableEq, Repr

/-- What a computation returns, `ω` being the values that only the client understands. -/
inductive GroupValue (ω : Type) where
  | table (table : RowSet)
  | scalar (value : Scalar)
  | client (value : ω)
deriving Repr

namespace GroupValue

variable {ω : Type}

def kind : GroupValue ω → ValueKind
  | .table _ => .table
  | .scalar _ => .scalar
  | .client _ => .client

end GroupValue

/-- The outcome of one call of a computation. -/
structure Reply (σ ω : Type) where
  value : Except String (GroupValue ω)
  state : σ
  /-- Whether the call asked for the traversal to be cancelled. -/
  abort : Bool

structure Computation (σ ω : Type) where
  name : Option String
  run : Group → σ → Reply σ ω

namespace Computation

/-- The first name that occurs twice. -/
def duplicate? : List (Option String) → List (Option String) → Option (Option String)
  | _, [] => none
  | seen, name :: rest => if seen.contains name then some name else duplicate? (seen ++ [name]) rest

/-- Computations are one without a name or several with different names. -/
def checkNames (names : List (Option String)) : Except Error Unit :=
  let named := names.countP Option.isSome
  if names.isEmpty then .error (.invalidComputations .none)
  else if named ≠ 0 ∧ named ≠ names.length then .error (.mixedNaming names)
  else if named = 0 ∧ 1 < names.length then
    .error (.invalidComputations (.severalUnnamed names.length))
  else
    match duplicate? [] names with
    | some name => .error (.invalidComputations (.duplicateName (name.getD "")))
    | none => .ok ()

end Computation

end SqlChain
