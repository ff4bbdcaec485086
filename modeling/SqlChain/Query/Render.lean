import SqlChain.Query.Build

/-!
# Rendering

A query is rendered as it is written, with its groups together, or as the list of its groups.
-/

namespace SqlChain

structure Rendered where
  sql : String
  columns : List String
  /-- The grouping that is in force at the end. -/
  groups : List String
  warnings : List Warning
deriving Repr

namespace State

/-- Whether a key is computed from columns that the level itself cannot refer to. -/
def isOutOfReach (s : State) (key : Expr) : Bool :=
  let key := key.descending?.getD key
  key.asColumn?.isNone && !s.level.body.canReference key.columns

/-- The grouping columns first, and the rows ordered by them before all else. -/
def groupOrdered (s : State) : BuildM State := do
  if s.groups.isEmpty then return s
  let others := s.columns.filter fun column => !s.groups.contains column
  let selected ← s.select ((s.groups ++ others).map Ident.ofName)
  let keys := s.groups.map Expr.column
  let order := selected.order.foldl
    (fun order key => if order.any (·.equal key) then order else order ++ [key]) keys
  return { selected with order }

end State

namespace Compiler

/-- One row for every group, ordered by the grouping columns. -/
def labels (c : Compiler) (s : State) : BuildM State := do
  if s.groups.isEmpty then throw (.invalidArgument "labels" .notGrouped)
  let summary ← c.summarise s []
  return { summary with order := s.groups.map Expr.column, groups := s.groups }

/-- The statement for the state with the ordering at its end. -/
def finish (c : Compiler) (s : State) : BuildM Rendered := do
  let s ← s.wrapIf (s.order.any s.isOutOfReach)
  let sql ← s.level.render c.dialect
  let keys ← BuildM.compiling (c.compileKeys .scalar s.order)
  let orderBy := if keys.isEmpty then "" else " ORDER BY " ++ String.intercalate ", " keys
  return {
    sql := sql ++ orderBy
    columns := s.columns
    groups := s.groups
    warnings := (← get).warnings }

end Compiler

inductive Mode where
  | plain
  /-- The rows, those of a group next to each other. -/
  | groups
  /-- The groups alone. -/
  | labels
deriving DecidableEq, Repr

namespace Mode

def all : List Mode := [.plain, .groups, .labels]

def name : Mode → String
  | .plain => "plain"
  | .groups => "groups"
  | .labels => "labels"

def ofName? (name : String) : Option Mode := all.find? (·.name == name)

theorem ofName?_name (m : Mode) : ofName? m.name = some m := by cases m <;> decide

end Mode

namespace Query

def arranged (c : Compiler) (mode : Mode) (s : State) : BuildM State :=
  match mode with
  | .plain => return s
  | .groups => s.groupOrdered
  | .labels => c.labels s

def rendering (c : Compiler) (mode : Mode) (q : Query) : BuildM Rendered := do
  let s ← c.build q
  let s ← arranged c mode s
  c.finish s

def render (q : Query) (mode : Mode) (dialect : Dialect) (config : Config) :
    Except Error Rendered := do
  let (rendered, _) ← (rendering (.builtin dialect config) mode q).run .start
  return rendered

def columns (q : Query) : Except Error (List String) := do
  return (← q.render .plain .ansi .default).columns

def groups (q : Query) : Except Error (List String) := do
  return (← q.render .plain .ansi .default).groups

end Query

end SqlChain
