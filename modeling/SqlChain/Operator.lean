/-!
# Operators of expressions

The operators with a spelling of their own in SQL, the names under which a client may call them,
and the names by which a plan records them.
-/

namespace SqlChain

inductive BinaryOp where
  | add | sub | mul | div | mod
  | eq | notEq | lt | ltEq | gt | gtEq
  | and | or
deriving DecidableEq, Repr

namespace BinaryOp

def all : List BinaryOp :=
  [.add, .sub, .mul, .div, .mod, .eq, .notEq, .lt, .ltEq, .gt, .gtEq, .and, .or]

theorem mem_all (op : BinaryOp) : op ∈ all := by cases op <;> decide

def sql : BinaryOp → String
  | .add => "+"
  | .sub => "-"
  | .mul => "*"
  | .div => "/"
  | .mod => "%"
  | .eq => "="
  | .notEq => "!="
  | .lt => "<"
  | .ltEq => "<="
  | .gt => ">"
  | .gtEq => ">="
  | .and => "AND"
  | .or => "OR"

/-- The name in a plan. -/
def key : BinaryOp → String
  | .add => "add"
  | .sub => "sub"
  | .mul => "mul"
  | .div => "div"
  | .mod => "mod"
  | .eq => "eq"
  | .notEq => "not_eq"
  | .lt => "lt"
  | .ltEq => "lt_eq"
  | .gt => "gt"
  | .gtEq => "gt_eq"
  | .and => "and"
  | .or => "or"

def ofKey? (key : String) : Option BinaryOp := all.find? (·.key == key)

theorem ofKey?_key (op : BinaryOp) : ofKey? op.key = some op := by cases op <;> decide

/-- The operator that a client writes as a call of this name. -/
def ofName? : String → Option BinaryOp
  | "+" => some .add
  | "-" => some .sub
  | "*" => some .mul
  | "/" => some .div
  | "%%" => some .mod
  | "==" => some .eq
  | "!=" => some .notEq
  | "<" => some .lt
  | "<=" => some .ltEq
  | ">" => some .gt
  | ">=" => some .gtEq
  | "&" => some .and
  | "&&" => some .and
  | "|" => some .or
  | "||" => some .or
  | _ => none

end BinaryOp

inductive UnaryOp where
  | not | negate
deriving DecidableEq, Repr

namespace UnaryOp

def all : List UnaryOp := [.not, .negate]

def key : UnaryOp → String
  | .not => "not"
  | .negate => "negate"

def ofKey? (key : String) : Option UnaryOp := all.find? (·.key == key)

theorem ofKey?_key (op : UnaryOp) : ofKey? op.key = some op := by cases op <;> decide

/-- The operator that a client writes as a call of this name. -/
def ofName? : String → Option UnaryOp
  | "!" => some .not
  | "-" => some .negate
  | _ => none

/-- The sign written in front of the operand in messages. -/
def sign : UnaryOp → String
  | .not => "!"
  | .negate => "-"

end UnaryOp

end SqlChain
