import SqlChain.Operator

/-!
# Forms of calls

How a call of a known function is written in SQL.
-/

namespace SqlChain

inductive SpecialForm where
  | conditional
  | isNull
  | between
  | inSet
  | nDistinct
  | nullIf
  | substr
  | pmin
  | pmax
  /-- The logarithm to a given base. -/
  | logBase
  | length
  /-- Concatenation, with a separator between the parts if there is one. -/
  | concat (separator : Option String)
  | cast (type : String)
  | descending
deriving DecidableEq, Repr

inductive SqlForm where
  /-- A function of the values of one row. -/
  | scalar (sql : String)
  /-- A function of all rows of a group, or of a window where one is allowed. -/
  | aggregate (sql : String)
  | countStar
  /-- A rank among the rows of a window in the order of the argument. -/
  | ranking (sql : String)
  /-- The value of a neighbouring row in the order of the query. -/
  | offset (sql : String)
  /-- A running aggregate in the order of the query. -/
  | cumulative (sql : String)
  | ntile
  | special (form : SpecialForm)
  | binary (op : BinaryOp)
  | unary (op : UnaryOp)
deriving DecidableEq, Repr

namespace SqlForm

/-- Whether rows collapse when the call is not evaluated over a window. -/
def isAggregate : SqlForm → Bool
  | .aggregate _ | .countStar | .special .nDistinct => true
  | _ => false

/-- Whether the call has a meaning only over a window. -/
def isWindowOnly : SqlForm → Bool
  | .ranking _ | .offset _ | .cumulative _ | .ntile => true
  | _ => false

end SqlForm

end SqlChain
