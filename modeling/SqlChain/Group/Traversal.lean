import SqlChain.Group.Output
import SqlChain.Group.Run
import SqlChain.Query.Render

/-!
# Traversal of the groups of a query

The rows of a query are fetched page by page with the rows of a group next to each other. Every
complete group is given to every computation once, in the order of the labels. The labels are
fetched first. A query without groups is a single group with an empty key.
-/

namespace SqlChain

inductive Phase where
  /-- The next page may come. -/
  | fetching
  /-- A complete group is with the computations. -/
  | groupComplete
  /-- The rows have ended and the last group is released. -/
  | draining
  | done
deriving DecidableEq, Repr

structure Stats where
  pages : Nat
  rows : Nat
  groups : Nat
deriving DecidableEq, Repr

structure Traversal (σ ω : Type) where
  phase : Phase
  carry : Carry
  columns : List String
  labels : RowSet
  /-- The results so far, by computation and then by group. -/
  slots : List (List (Option (GroupValue ω)))
  /-- The index of the next group. -/
  next : Nat
  stats : Stats
  client : σ
  aborted : Bool

namespace Traversal

variable {σ ω : Type}

def start (columns : List String) (keys computations : Nat) (labels : RowSet) (client : σ)
    (aborted : Bool) : Traversal σ ω where
  phase := .fetching
  carry := .start keys
  columns := columns
  labels := labels
  slots := List.replicate computations (List.replicate labels.rows.length none)
  next := 0
  stats := { pages := 0, rows := 0, groups := 0 }
  client := client
  aborted := aborted

def fill (t : Traversal σ ω) (computation group : Nat) (value : GroupValue ω) : Traversal σ ω :=
  { t with slots := t.slots.modify computation (·.set group (some value)) }

end Traversal

/-- Steps of a traversal, whose state is kept also when it fails. -/
abbrev TraversalM (σ ω : Type) := ExceptT Error (StateM (Traversal σ ω))

namespace TraversalM

variable {σ ω : Type}

def enter (phase : Phase) : TraversalM σ ω Unit := modify fun t => { t with phase }

def call (group : Group) (i : Nat) (computation : Computation σ ω) : TraversalM σ ω Unit := do
  let t ← get
  let reply := computation.run group t.client
  set { t with client := reply.state, aborted := t.aborted || reply.abort }
  match reply.value with
  | .error reason => throw (.computation (computation.name.getD "") group.index reason)
  | .ok value => modify (·.fill i group.index value)

/-- Give the group to the computations, the first of which has the index `i`. -/
def callAll (group : Group) (i : Nat) : List (Computation σ ω) → TraversalM σ ω Unit
  | [] => return
  | computation :: rest => do
    call group i computation
    callAll group (i + 1) rest

/-- Give a complete group to all computations. Its key has to be the next label. -/
def dispatch (computations : List (Computation σ ω)) (run : Run) : TraversalM σ ω Unit := do
  let t ← get
  if t.aborted then throw (.cancelled t.next)
  match t.labels.rows[t.next]? with
  | none => throw (.groupCountMismatch t.labels.rows.length (t.next + 1))
  | some label =>
    if !GroupKey.equal label run.key then throw (.orderingViolation run.key)
    let rows : RowSet := { columns := t.columns, rows := run.rows }
    callAll { index := t.next, key := run.key, rows } 0 computations
    modify fun t =>
      { t with next := t.next + 1, stats := { t.stats with groups := t.stats.groups + 1 } }

def dispatchAll (computations : List (Computation σ ω)) : List Run → TraversalM σ ω Unit
  | [] => return
  | run :: rest => do
    enter .groupComplete
    dispatch computations run
    dispatchAll computations rest

def countPage (page : RowSet) : TraversalM σ ω Unit :=
  modify fun t =>
    { t with stats :=
        { t.stats with pages := t.stats.pages + 1, rows := t.stats.rows + page.rows.length } }

/-- Add the rows of a page and give the groups that are complete to the computations. -/
def onPage (computations : List (Computation σ ω)) (page : RowSet) : TraversalM σ ω Unit := do
  countPage page
  let t ← get
  let (released, carry) := t.carry.pushPage page.rows
  set { t with carry }
  match released with
  | .error e => throw e
  | .ok runs =>
    dispatchAll computations runs
    enter .fetching

/-- Release the last group when the rows have ended. Where nothing is grouped the computations see
one group even if there are no rows. -/
def drain (computations : List (Computation σ ω)) : TraversalM σ ω Unit := do
  enter .draining
  let t ← get
  let (last, carry) := t.carry.drain
  set { t with carry }
  match last with
  | some run => dispatch computations run
  | none =>
    if t.labels.columns.isEmpty && t.next == 0 then dispatch computations ⟨[], []⟩
  let t ← get
  if t.next ≠ t.labels.rows.length then
    throw (.groupCountMismatch t.labels.rows.length t.next)
  enter .done

end TraversalM

/-- The pages that a statement delivers, and what went wrong after the last of them, if
anything. -/
structure Feed where
  pages : List RowSet
  failure : Option String
deriving DecidableEq, Repr

structure Connection where
  dialect : Dialect
  /-- All rows of a statement. -/
  execute : String → Except String RowSet
  /-- The rows of a statement in pages of at most this many. -/
  fetch : String → Nat → Feed

inductive Request where
  | execute (sql : String)
  | fetch (sql : String) (pageSize : Nat)
deriving DecidableEq, Repr

structure Result (ω : Type) where
  output : Output ω
  stats : Stats
deriving Repr

/-- What is left after a traversal, whether it came to its end or not. -/
structure Execution (σ ω : Type) where
  /-- What was asked of the connection, in order. -/
  requests : List Request
  /-- How many pages were taken, the last of which may have been refused. -/
  pages : Nat
  client : σ
  aborted : Bool
  outcome : Except Error (Result ω)

/-- The statements that a traversal needs. There is none for the labels if nothing is grouped. -/
structure Statements where
  rows : Rendered
  labels : Option Rendered
deriving Repr

namespace Query

variable {σ ω : Type}

/-- Everything that can be checked before the connection is asked for anything. -/
def statements (q : Query) (dialect : Dialect) (config : Config)
    (computations : List (Computation σ ω)) : Except Error Statements := do
  Computation.checkNames (computations.map (·.name))
  config.validate
  let rows ← q.render .groups dialect config
  if rows.groups.isEmpty then return { rows, labels := none }
  let labels ← q.render .labels dialect config
  return { rows, labels := some labels }

/-- Take the pages of a feed until one is refused. -/
def takePages (computations : List (Computation σ ω)) (feed : Feed) : TraversalM σ ω Unit := do
  feed.pages.forM (TraversalM.onPage computations)
  match feed.failure with
  | some reason => throw (.connection reason)
  | none => return

def traverse (connection : Connection) (config : Config) (rows : Rendered)
    (computations : List (Computation σ ω)) (labels : RowSet) (sent : List Request) (client : σ)
    (aborted : Bool) : Execution σ ω :=
  let pageSize := config.chunkSize.toNat
  let feed := connection.fetch rows.sql pageSize
  let start : Traversal σ ω :=
    .start rows.columns rows.groups.length computations.length labels client aborted
  let run : TraversalM σ ω Unit := do
    takePages computations feed
    TraversalM.drain computations
  let (ended, t) := run.run.run start
  { requests := sent ++ [.fetch rows.sql pageSize]
    pages := t.stats.pages
    client := t.client
    aborted := t.aborted
    outcome := do
      ended
      let output ← Output.assemble labels (computations.map (·.name)) t.slots
      return { output, stats := t.stats } }

/-- The one label of rows that are not grouped. -/
def singleLabel : RowSet := { columns := [], rows := [[]] }

def execute (q : Query) (connection : Connection) (config : Config)
    (computations : List (Computation σ ω)) (client : σ) (aborted : Bool) : Execution σ ω :=
  let ended (requests : List Request) (e : Error) : Execution σ ω :=
    { requests, pages := 0, client, aborted, outcome := .error e }
  match q.statements connection.dialect config computations with
  | .error e => ended [] e
  | .ok { rows, labels := none } =>
    traverse connection config rows computations singleLabel [] client aborted
  | .ok { rows, labels := some labels } =>
    let asked : Request := .execute labels.sql
    match connection.execute labels.sql with
    | .error reason => ended [asked] (.connection reason)
    | .ok table => traverse connection config rows computations table [asked] client aborted

end Query

end SqlChain
