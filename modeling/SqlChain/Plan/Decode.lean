import SqlChain.Config
import SqlChain.Json.Number
import SqlChain.Query.Basic
import SqlChain.Timestamp.Reader

/-!
# Queries from JSON

The inverse of the encoding. Fields that are not known are ignored, and a field that is given
twice is refused. Absent options may also be null.
-/

namespace SqlChain

/-- What is accepted beyond the encoding. -/
structure Spelling where
  /-- Whether floats may be given by a numeral in a string. -/
  numerals : Bool
  /-- Whether a name that takes no value may be given an empty object as one. -/
  emptyObjects : Bool
deriving DecidableEq, Repr

namespace Json

def string? : Json → Option String
  | .string s => some s
  | _ => none

def bool? : Json → Option Bool
  | .bool b => some b
  | _ => none

def items? : Json → Option (List Json)
  | .array items => some items
  | _ => none

def strings? (j : Json) : Option (List String) := do
  (← j.items?).mapM string?

def listOf? {α : Type} (decode : Json → Option α) (j : Json) : Option (List α) := do
  (← j.items?).mapM decode

def integerBetween? (least most : Int) : Json → Option Int
  | .number (.integer n) => if least ≤ n ∧ n ≤ most then some n else none
  | _ => none

def int64? (j : Json) : Option Int64 :=
  (j.integerBetween? Int64.minValue.toInt Int64.maxValue.toInt).map Int64.ofInt

def uint64? (j : Json) : Option UInt64 :=
  (j.integerBetween? 0 (UInt64.size - 1 : Nat)).map fun n => UInt64.ofNat n.toNat

def fields? : Json → Option (List (String × Json))
  | .object fields => some fields
  | _ => none

end Json

abbrev Fields := List (String × Json)

namespace Fields

/-- The value of a field that is given at most once. -/
def find? (fields : Fields) (key : String) : Option (Option Json) :=
  match fields.filter (·.1 == key) with
  | [] => some none
  | [(_, value)] => some (some value)
  | _ => none

def required {α : Type} (fields : Fields) (key : String) (decode : Json → Option α) :
    Option α := do
  decode (← ← fields.find? key)

/-- A field that may be absent or null. -/
def optional {α : Type} (fields : Fields) (key : String) (decode : Json → Option α) :
    Option (Option α) := do
  match ← fields.find? key with
  | none | some .null => return none
  | some value => return some (← decode value)

/-- A field with a value for when it is absent. -/
def defaulted {α : Type} (fields : Fields) (key : String) (default : α)
    (decode : Json → Option α) : Option α := do
  match ← fields.find? key with
  | none => return default
  | some value => decode value

end Fields

namespace Spelling

/-- Whether a value may stand beside a name that takes none. -/
def isUnit (sp : Spelling) : Json → Bool
  | .null => true
  | .object [] => sp.emptyObjects
  | _ => false

def name? (sp : Spelling) : Json → Option String
  | .string s => some s
  | .object [(s, value)] => if sp.isUnit value then some s else none
  | _ => none

/-- The value of a float, which may be given as an integer. -/
def float? (sp : Spelling) : Json → Option Binary64
  | .number (.integer i) => some (.ofRatio (i < 0) i.natAbs 1)
  | .number (.float x) => some x
  | .string s => if sp.numerals then Binary64.ofText? s else none
  | _ => none

def scalar? (sp : Spelling) : Json → Option Scalar
  | .string "null" => some .null
  | .object [(key, value)] =>
    match key with
    | "null" => if sp.isUnit value then some .null else none
    | "boolean" => value.bool?.map .boolean
    | "int64" => value.int64?.map .int64
    | "float64" => (sp.float? value).map .float64
    | "utf8" => value.string?.map .utf8
    | "timestamp" => do return .timestamp (← Timestamp.ofText? (← value.string?))
    | _ => none
  | _ => none

mutual

/-- An expression, `fuel` being more than its depth. -/
def exprWithin? (sp : Spelling) (fuel : Nat) (j : Json) : Option Expr :=
  match fuel, j with
  | fuel + 1, .object [(key, value)] =>
    match key with
    | "column" => value.string?.map .column
    | "literal" => (sp.scalar? value).map .literal
    | "call" => do
      let fields ← value.fields?
      let function ← Fields.required fields "name" Json.string?
      let args ← Fields.defaulted fields "args" [] (Json.listOf? (sp.argWithin? fuel))
      let window ← Fields.defaulted fields "window" false Json.bool?
      return .call function args window
    | "conditional" => do
      let fields ← value.fields?
      let condition ← Fields.required fields "condition" (sp.exprWithin? fuel)
      let value ← Fields.required fields "then" (sp.exprWithin? fuel)
      let otherwise ← Fields.optional fields "otherwise" (sp.exprWithin? fuel)
      return .conditional condition value otherwise
    | "in_list" => do
      let fields ← value.fields?
      let expr ← Fields.required fields "expr" (sp.exprWithin? fuel)
      Fields.required fields "candidates" (sp.membershipWithin? fuel expr)
    | "infix" => do
      let fields ← value.fields?
      let op ← Fields.required fields "op" fun j => do BinaryOp.ofKey? (← sp.name? j)
      let left ← Fields.required fields "left" (sp.exprWithin? fuel)
      let right ← Fields.required fields "right" (sp.exprWithin? fuel)
      return .binary op left right
    | "prefix" => do
      let fields ← value.fields?
      let op ← Fields.required fields "op" fun j => do UnaryOp.ofKey? (← sp.name? j)
      let operand ← Fields.required fields "expr" (sp.exprWithin? fuel)
      return .unary op operand
    | _ => none
  | _, _ => none

def argWithin? (sp : Spelling) (fuel : Nat) (j : Json) : Option (Arg Expr) :=
  match fuel with
  | 0 => none
  | fuel + 1 => do
    let fields ← j.fields?
    let name ← Fields.optional fields "name" Json.string?
    let value ← Fields.required fields "value" (sp.exprWithin? fuel)
    return { name, value }

/-- The test whether `expr` is a member of what is given. -/
def membershipWithin? (sp : Spelling) (fuel : Nat) (expr : Expr) (j : Json) : Option Expr :=
  match fuel, j with
  | fuel + 1, .object [(key, value)] =>
    match key with
    | "list" => (Json.listOf? (sp.exprWithin? fuel) value).map (.inList expr)
    | "expr" => (sp.exprWithin? fuel value).map (.inExpr expr)
    | _ => none
  | _, _ => none

end

end Spelling

namespace Json

mutual

def depth : Json → Nat
  | .array items => depthOfItems items + 1
  | .object fields => depthOfFields fields + 1
  | _ => 0

def depthOfItems : List Json → Nat
  | [] => 0
  | item :: rest => max item.depth (depthOfItems rest)

def depthOfFields : List (String × Json) → Nat
  | [] => 0
  | (_, value) :: rest => max value.depth (depthOfFields rest)

end

end Json

namespace Spelling

def expr? (sp : Spelling) (j : Json) : Option Expr := sp.exprWithin? (j.depth + 1) j

def ident? (j : Json) : Option Ident := do
  let fields ← j.fields?
  let name ← Fields.required fields "name" Json.string?
  let newName ← Fields.optional fields "alias" Json.string?
  return { name, newName }

def pair? {α : Type} (decode : Json → Option α) : Json → Option (String × α)
  | .array [name, value] => do return (← name.string?, ← decode value)
  | _ => none

def op? (sp : Spelling) : Json → Option Op
  | .string "ungroup" => some .ungroup
  | .object [(key, value)] =>
    match key with
    | "select" => (Json.listOf? ident? value).map .select
    | "rename" => (Json.listOf? (pair? Json.string?) value).map .rename
    | "filter" => (Json.listOf? sp.expr? value).map .filter
    | "mutate" => (Json.listOf? (pair? sp.expr?) value).map .mutate
    | "summarise" => (Json.listOf? (pair? sp.expr?) value).map .summarise
    | "arrange" => (Json.listOf? sp.expr? value).map .arrange
    | "group_by" => do
      let fields ← value.fields?
      let keys ← Fields.required fields "keys" Json.strings?
      let add ← Fields.defaulted fields "add" false Json.bool?
      return .groupBy keys add
    | "ungroup" => if sp.isUnit value then some .ungroup else none
    | _ => none
  | _ => none

def source? (j : Json) : Option Source := do
  let fields ← j.fields?
  let schema ← Fields.optional fields "schema" Json.string?
  let name ← Fields.required fields "name" Json.string?
  let columns ← Fields.required fields "columns" Json.strings?
  return { schema, name, columns }

def query? (sp : Spelling) (j : Json) : Option Query := do
  let fields ← j.fields?
  let source ← Fields.required fields "source" source?
  let ops ← Fields.defaulted fields "ops" [] (Json.listOf? sp.op?)
  return { source, ops }

end Spelling

namespace Config

def decode? (j : Json) : Option Config := do
  let fields ← j.fields?
  let chunkSize ← Fields.defaulted fields "chunk_size" default.chunkSize Json.uint64?
  let strictSql ← Fields.defaulted fields "strict_sql" default.strictSql Json.bool?
  let strictNumeric ← Fields.defaulted fields "strict_numeric" default.strictNumeric Json.bool?
  return { chunkSize, strictSql, strictNumeric }

end Config

end SqlChain
