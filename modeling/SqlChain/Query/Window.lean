import SqlChain.Compiler.Term
import SqlChain.Query.State

/-!
# Window calls without windows

A call over a window can be had without `OVER`. An aggregate is computed by groups in a second copy
of the level, and every row is joined with the row of its group. A rank is one more than the number
of rows in front, which a correlated subquery counts. The rows keep their columns and gain one
for every call.
-/

namespace SqlChain

namespace Compiler

/-- Whether a call is evaluated over a window outside of a summary. -/
def isWindowCall (c : Compiler) (function : String) (arity : Nat) (window : Bool) : Bool :=
  window || (c.functions.form? function arity).any fun form =>
    form.isAggregate || form.isWindowOnly

def isWindowExpr (c : Compiler) : Expr → Bool
  | .call function args window => c.isWindowCall function args.length window
  | _ => false

/-- Whether a call cannot be written with `OVER` in any dialect. -/
def isJoinOnly (c : Compiler) : Expr → Bool
  | .call function args _ =>
    c.functions.form? function args.length == some (.special .nDistinct)
  | _ => false

def needsWindow (c : Compiler) (e : Expr) : Bool := e.any c.isWindowExpr

def needsJoin (c : Compiler) (e : Expr) : Bool := e.any c.isJoinOnly

def hasWindows (c : Compiler) : Bool := c.dialect.features.windowFunctions

/-- The table name of the rows that a rank counts. -/
def rankTable : String := "RNK"

/-- Equality of a grouping column in two tables, nulls being equal to each other. -/
def matchGroup (c : Compiler) (left right group : String) : Except Error String := do
  let l ← c.dialect.quoteQualified (some left) group
  let r ← c.dialect.quoteQualified (some right) group
  return "(" ++ l ++ " = " ++ r ++ " OR (" ++ l ++ " IS NULL AND " ++ r ++ " IS NULL))"

def matchGroups (c : Compiler) (left right : String) (groups : List String) :
    Except Error (List String) :=
  groups.mapM (c.matchGroup left right)

/-- The condition under which two rows belong to the same group. -/
def matching (c : Compiler) (groups : List String) : Except Error Matching := do
  let conditions ← c.matchGroups Side.left.tableName Side.right.tableName groups
  let sql := if conditions.isEmpty then "1 = 1" else String.intercalate " AND " conditions
  return { groups, sql }

/-- A rank as one more than the number of rows of the same group that come before, `source` being
the text of the level that the rows come from. -/
def correlatedRank (c : Compiler) (source : String) (dense : Bool) (key : Expr)
    (groups : List String) : BuildM CorrelatedRank := do
  let descending := key.descending?.isSome
  let key := key.descending?.getD key
  let inner ← BuildM.compiling (c.compileOperand (.qualified rankTable) key)
  let outer ← BuildM.compiling (c.compileOperand (.qualified Side.left.tableName) key)
  let count := if dense then "COUNT(DISTINCT " ++ inner ++ ")" else "COUNT(*)"
  let same ← c.matchGroups rankTable Side.left.tableName groups
  let before := inner ++ (if descending then " > " else " < ") ++ outer
  let table ← c.dialect.quoteIdentifier rankTable
  let sql := "(SELECT " ++ count ++ " FROM " ++ Level.named source table ++ " WHERE " ++
    String.intercalate " AND " (same ++ [before]) ++ ") + 1"
  return { key, descending, dense, groups, sql }

/-- What stands for a window call. -/
inductive Emulated where
  /-- An aggregate over the rows of a group. -/
  | aggregate (item : Item)
  | rank (item : Item)

namespace Emulated

def aggregate? : Emulated → Option Item
  | .aggregate item => some item
  | .rank _ => none

def rank? : Emulated → Option Item
  | .aggregate _ => none
  | .rank item => some item

end Emulated

def emulate (c : Compiler) (source : String) (groups : List String) (x : ExtractedCall) :
    BuildM Emulated := do
  let unsupported : BuildM Emulated :=
    throw (.unsupportedEmulation x.function c.dialect.name)
  match c.functions.form? x.function x.args.length with
  | none => unsupported
  | some form =>
    if form.isAggregate then
      let sql ← BuildM.compiling (c.compile .scalar x.call)
      return .aggregate
        { name := x.temporary, value := .computed { expr := x.call, window := none, sql } }
    else if form = .ranking "RANK" ∨ form = .ranking "DENSE_RANK" then
      match x.args with
      | [] => throw (.missingArgument x.function 0)
      | key :: _ =>
        let rank ← c.correlatedRank source (form = .ranking "DENSE_RANK") key.value groups
        return .rank { name := x.temporary, value := .rank rank }
    else unsupported

/-- The columns of the level and one for every call, without a window. -/
def emulateAll (c : Compiler) (s : State) (calls : List ExtractedCall) : BuildM State := do
  let source ← s.level.render c.dialect
  let emulated ← calls.mapM (c.emulate source s.groups)
  let aggregates := emulated.filterMap Emulated.aggregate?
  let ranks := emulated.filterMap Emulated.rank?
  let own := s.columns.map (Item.ofSide .left)
  let body := Body.identity s.columns
  if aggregates.isEmpty then
    let body := { body with items := own ++ ranks }
    return { s with level := .subquery s.level Side.left.tableName body }
  let right : Level := .subquery s.level (← BuildM.nextSubquery)
    { body with
      items := s.groups.map Item.column ++ aggregates
      groupBy := s.groups
      aggregated := true }
  let on ← c.matching s.groups
  let joined := aggregates.map fun item => Item.ofSide .right item.name
  return { s with level := .join s.level right on { body with items := own ++ joined ++ ranks } }

end Compiler

end SqlChain
