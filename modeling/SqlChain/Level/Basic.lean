import SqlChain.Compiler.Context
import SqlChain.Query.Basic

/-!
# Levels of a statement

A level is one `SELECT` of a nest of them. It reads a table, a subquery or a join of two
subqueries. Everything that was compiled into a level is kept beside its text, so that a level can
be read as what it means and not only as what it is written like.
-/

namespace SqlChain

inductive Side where
  | left | right
deriving DecidableEq, Repr

namespace Side

def tableName : Side → String
  | .left => "LHS"
  | .right => "RHS"

end Side

/-- A compiled expression with the window it was compiled for. -/
structure Fragment where
  expr : Expr
  window : Option Window
  sql : String
deriving Repr

/-- A rank among the rows of the left side that agree in the grouping columns, found by counting
the rows in front. -/
structure CorrelatedRank where
  key : Expr
  descending : Bool
  /-- Whether equal rows in front are counted once. -/
  dense : Bool
  groups : List String
  sql : String
deriving Repr

inductive ItemValue where
  /-- A column of what the level reads, of one side of it if it is a join. -/
  | column (side : Option Side) (name : String)
  | computed (fragment : Fragment)
  | rank (rank : CorrelatedRank)
deriving Repr

structure Item where
  name : String
  value : ItemValue
deriving Repr

namespace Item

def column (name : String) : Item := { name, value := .column none name }

def ofSide (side : Side) (name : String) : Item := { name, value := .column (some side) name }

/-- Whether the item passes a column on under its own name. Only such items can be referred to
from the other clauses of their level. -/
def isIdentity (item : Item) : Bool :=
  match item.value with
  | .column none name => name == item.name
  | _ => false

@[simp] theorem isIdentity_column (name : String) : (column name).isIdentity = true := by
  simp [column, isIdentity]

end Item

/-- The clauses of a level other than its `FROM`. -/
structure Body where
  /-- The columns that the level reads. -/
  inputs : List String
  items : List Item
  /-- Predicates that all have to hold. -/
  filters : List Fragment
  groupBy : List String
  /-- Whether the rows of the level are groups of rows. -/
  aggregated : Bool
  windowed : Bool
deriving Repr

namespace Body

def identity (columns : List String) : Body where
  inputs := columns
  items := columns.map Item.column
  filters := []
  groupBy := []
  aggregated := false
  windowed := false

def outputs (b : Body) : List String := b.items.map (·.name)

@[simp] theorem outputs_identity (columns : List String) :
    (identity columns).outputs = columns := by
  simp [outputs, identity, Item.column, Function.comp_def]

def item? (b : Body) (name : String) : Option Item := b.items.find? (·.name == name)

def canReference (b : Body) (names : List String) : Bool :=
  names.all fun name => (b.item? name).any Item.isIdentity

/-- Replace the first item of the same name, or add the item behind all others. -/
def putItem (item : Item) : List Item → List Item
  | [] => [item]
  | other :: rest =>
    if other.name = item.name then item :: rest else other :: putItem item rest

def setItem (b : Body) (item : Item) : Body := { b with items := putItem item b.items }

def selectsAll (b : Body) : Bool :=
  b.items.length == b.inputs.length &&
    (b.items.zip b.inputs).all fun (item, input) => item.isIdentity && item.name == input

end Body

/-- The equality of the grouping columns of both sides of a join, nulls being equal. -/
structure Matching where
  groups : List String
  sql : String
deriving Repr

inductive Level where
  | table (schema : Option String) (name : String) (body : Body)
  | subquery (inner : Level) (tableName : String) (body : Body)
  /-- Every row of the left side with the row of the right side that matches it. -/
  | join (left right : Level) (on : Matching) (body : Body)
deriving Repr

namespace Level

def body : Level → Body
  | .table _ _ body => body
  | .subquery _ _ body => body
  | .join _ _ _ body => body

/-- The level with other clauses behind the same `FROM`. -/
def withBody (level : Level) (body : Body) : Level :=
  match level with
  | .table schema name _ => .table schema name body
  | .subquery inner tableName _ => .subquery inner tableName body
  | .join left right on _ => .join left right on body

@[simp] theorem body_withBody (level : Level) (body : Body) :
    (level.withBody body).body = body := by
  cases level <;> rfl

theorem withBody_body (level : Level) : level.withBody level.body = level := by
  cases level <;> rfl

theorem withBody_withBody (level : Level) (first second : Body) :
    (level.withBody first).withBody second = level.withBody second := by
  cases level <;> rfl

def outputs (level : Level) : List String := level.body.outputs

def isJoin : Level → Bool
  | .join .. => true
  | _ => false

def ofSource (source : Source) : Level :=
  .table source.schema source.name (.identity source.columns)

/-- The level as the subquery of one that passes all its columns on. -/
def wrap (level : Level) (tableName : String) : Level :=
  .subquery level tableName (.identity level.outputs)

@[simp] theorem outputs_wrap (level : Level) (tableName : String) :
    (level.wrap tableName).outputs = level.outputs := by
  simp [outputs, wrap, body]

/-- Whether the level only selects and filters columns of what it reads. -/
def isPlain (level : Level) : Bool :=
  !level.body.aggregated && !level.body.windowed && !level.isJoin &&
    level.body.items.all Item.isIdentity

end Level

end SqlChain
