import SqlChain.Expr.Columns
import SqlChain.Expr.Extraction
import SqlChain.Level.Render

/-!
# The state of a chain

Between two operations a chain has a level, grouping columns and an ordering. The ordering is
applied only when the statement is finished.
-/

namespace SqlChain

structure State where
  level : Level
  groups : List String
  order : List Expr
deriving Repr

namespace State

def ofSource (source : Source) : State :=
  { level := .ofSource source, groups := [], order := [] }

def columns (s : State) : List String := s.level.outputs

/-- Refuse the first name that is no column. -/
def checkNames (s : State) (names : List String) : Except Error Unit :=
  match names.find? fun name => !s.columns.contains name with
  | some missing => .error (.unknownColumn missing s.columns)
  | none => .ok ()

def checkReferences (s : State) (e : Expr) : Except Error Unit := s.checkNames e.columns

/-- The grouping columns that are not selected, in front of those that are. -/
def withGroups (s : State) (idents : List Ident) : List Ident :=
  (s.groups.filter fun group => !idents.any (·.name == group)).map Ident.ofName ++ idents

/-- The renaming that a selection amounts to. -/
def renames (idents : List Ident) : List (String × String) :=
  idents.filterMap fun i => i.newName.map (i.name, ·)

def isKept (idents : List Ident) (key : Expr) : Bool :=
  key.columns.all fun column => idents.any (·.name == column)

/-- The state with these columns only. Keys of the ordering stay as long as their columns do. -/
def project (s : State) (idents : List Ident) : State :=
  let renames := State.renames idents
  let items := idents.filterMap fun i =>
    (s.level.body.item? i.name).map fun item => { item with name := i.output }
  { level := s.level.withBody { s.level.body with items }
    groups := s.groups.map (Expr.renamed renames)
    order := (s.order.filter (isKept idents)).map (Expr.rename renames) }

def dropped (s : State) (idents : List Ident) : List Warning :=
  (s.order.filter fun key => !isKept idents key).map .orderingDropped

end State

/-- What has been handed out and remarked while a statement is built. -/
structure Progress where
  subqueries : Nat
  temporaries : Nat
  dropped : List Warning
  compiled : List Warning

namespace Progress

def start : Progress := { subqueries := 0, temporaries := 0, dropped := [], compiled := [] }

/-- Those about the chain come before those about expressions. -/
def warnings (p : Progress) : List Warning := p.dropped ++ p.compiled

end Progress

/-- Steps of building a statement. -/
abbrev BuildM := StateT Progress (Except Error)

namespace BuildM

def subqueryName (n : Nat) : String := "q" ++ Text.padded 2 n

/-- A name for a subquery that was not handed out before. -/
def nextSubquery : BuildM String :=
  modifyGet fun p => (subqueryName (p.subqueries + 1), { p with subqueries := p.subqueries + 1 })

def compiling {α : Type} (m : CompileM α) : BuildM α := fun p =>
  match (m.run).run p.compiled with
  | (.ok a, compiled) => .ok (a, { p with compiled })
  | (.error e, _) => .error e

def extracting (p : String → Nat → Bool → Bool) (e : Expr) :
    BuildM (Expr × List ExtractedCall) := fun progress =>
  let (e, x) := (e.extract p).run { issued := progress.temporaries, calls := [] }
  .ok ((e, x.calls), { progress with temporaries := x.issued })

end BuildM

namespace State

def wrap (s : State) : BuildM State := do
  return { s with level := s.level.wrap (← BuildM.nextSubquery) }

def wrapIf (condition : Bool) (s : State) : BuildM State :=
  if condition then s.wrap else return s

/-- Keep only these columns and the grouping columns, which come first if they were left out. -/
def select (s : State) (idents : List Ident) : BuildM State := do
  s.checkNames (idents.map (·.name))
  let idents := s.withGroups idents
  modify fun p => { p with dropped := p.dropped ++ s.dropped idents }
  return s.project idents

end State

end SqlChain
