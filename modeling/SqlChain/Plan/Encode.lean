import SqlChain.Json.Basic
import SqlChain.Query.Basic

/-!
# Queries as JSON

Every constructor is an object with its name as the only key. Options that are absent are left
out. A float that is not finite cannot be written and becomes null.
-/

namespace SqlChain

namespace Json

/-- A constructor by its name. -/
def tagged (key : String) (value : Json) : Json := .object [(key, value)]

end Json

namespace Scalar

def encode : Scalar → Json
  | .null => .string "null"
  | .boolean b => .tagged "boolean" (.bool b)
  | .int64 n => .tagged "int64" (.integer n.toInt)
  | .float64 x => .tagged "float64" (if x.isFinite then .number (.float x) else .null)
  | .utf8 s => .tagged "utf8" (.string s)
  | .timestamp t => .tagged "timestamp" (.string t.briefText)

end Scalar

namespace Expr

def encodeArg (name : Option String) (value : Json) : Json :=
  .ofFields [("name", name.map .string), ("value", some value)]

mutual

def encode : Expr → Json
  | .column name => .tagged "column" (.string name)
  | .literal value => .tagged "literal" value.encode
  | .call function args window =>
    .tagged "call" (.object [
      ("name", .string function),
      ("args", .array (encodeArgs args)),
      ("window", .bool window)])
  | .conditional condition value none =>
    .tagged "conditional" (.object [("condition", condition.encode), ("then", value.encode)])
  | .conditional condition value (some otherwise) =>
    .tagged "conditional" (.object [
      ("condition", condition.encode),
      ("then", value.encode),
      ("otherwise", otherwise.encode)])
  | .inList expr candidates =>
    .tagged "in_list" (.object [
      ("expr", expr.encode),
      ("candidates", .tagged "list" (.array (encodeList candidates)))])
  | .inExpr expr candidates =>
    .tagged "in_list" (.object [
      ("expr", expr.encode),
      ("candidates", .tagged "expr" candidates.encode)])
  | .binary op left right =>
    .tagged "infix" (.object [
      ("op", .string op.key),
      ("left", left.encode),
      ("right", right.encode)])
  | .unary op operand =>
    .tagged "prefix" (.object [("op", .string op.key), ("expr", operand.encode)])

def encodeArgs : List (Arg Expr) → List Json
  | [] => []
  | ⟨name, e⟩ :: rest => encodeArg name e.encode :: encodeArgs rest

def encodeList : List Expr → List Json
  | [] => []
  | e :: rest => e.encode :: encodeList rest

end

end Expr

namespace Ident

def encode (i : Ident) : Json :=
  .ofFields [("name", some (.string i.name)), ("alias", i.newName.map .string)]

end Ident

namespace Op

def encodePair (pair : String × String) : Json := .strings [pair.1, pair.2]

def encodeAssignment (assignment : String × Expr) : Json :=
  .array [.string assignment.1, assignment.2.encode]

def encode : Op → Json
  | .select idents => .tagged "select" (.array (idents.map Ident.encode))
  | .rename pairs => .tagged "rename" (.array (pairs.map encodePair))
  | .filter predicates => .tagged "filter" (.array (predicates.map Expr.encode))
  | .mutate assignments => .tagged "mutate" (.array (assignments.map encodeAssignment))
  | .summarise assignments => .tagged "summarise" (.array (assignments.map encodeAssignment))
  | .arrange keys => .tagged "arrange" (.array (keys.map Expr.encode))
  | .groupBy keys add =>
    .tagged "group_by" (.object [("keys", .strings keys), ("add", .bool add)])
  | .ungroup => .string "ungroup"

end Op

namespace Source

def encode (s : Source) : Json :=
  .ofFields [
    ("schema", s.schema.map .string),
    ("name", some (.string s.name)),
    ("columns", some (.strings s.columns))]

end Source

namespace Query

def encode (q : Query) : Json :=
  .object [("source", q.source.encode), ("ops", .array (q.ops.map Op.encode))]

end Query

end SqlChain
