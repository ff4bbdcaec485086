import SqlChain.Query.Window

/-!
# Building a statement

Every operation of a chain is put into the current level where the order of the clauses allows it.
Where it does not, the level becomes a subquery first. A window call in a predicate is computed in
a column of its own, which is dropped again once the rows are chosen.
-/

namespace SqlChain.Compiler

/-- Add a predicate without window calls. -/
def filterRows (c : Compiler) (s : State) (predicate : Expr) : BuildM State := do
  let body := s.level.body
  let s ← s.wrapIf (body.aggregated || body.windowed || s.level.isJoin ||
    !body.canReference predicate.columns)
  let sql ← BuildM.compiling (c.compile .scalar predicate)
  let filter : Fragment := { expr := predicate, window := none, sql }
  let body := s.level.body
  return { s with level := s.level.withBody { body with filters := body.filters ++ [filter] } }

/-- Assign a column, evaluating calls over the window of the state if `windowed`. -/
def assign (c : Compiler) (s : State) (windowed : Bool) (name : String) (e : Expr) :
    BuildM State := do
  let used := e.columns ++ if windowed then s.groups ++ s.order.flatMap Expr.columns else []
  let body := s.level.body
  let s ← s.wrapIf (body.aggregated || s.level.isJoin || !body.canReference used)
  let context : Context := if windowed then .windowed s.groups s.order else .scalar
  let sql ← BuildM.compiling (c.compile context e)
  let body := s.level.body.setItem
    { name, value := .computed { expr := e, window := context.window, sql } }
  return { s with level := s.level.withBody { body with windowed := body.windowed || windowed } }

/-- Add a column for every extracted call, over a window where the dialect has them. -/
def materialise (c : Compiler) (s : State) (calls : List ExtractedCall) : BuildM State := do
  if !c.hasWindows then c.emulateAll s calls
  else
    let (joined, native) := calls.partition fun x => c.needsJoin x.call
    let s ← if joined.isEmpty then pure s else c.emulateAll s joined
    native.foldlM (fun s x => c.assign s true x.temporary x.call) s

/-- Keep only the columns of these names. -/
def selectNames (s : State) (names : List String) : BuildM State :=
  s.select (names.map Ident.ofName)

def filter (c : Compiler) (s : State) (predicate : Expr) : BuildM State := do
  s.checkReferences predicate
  if c.needsWindow predicate then
    let (rest, calls) ← BuildM.extracting c.isWindowCall predicate
    let filtered ← c.filterRows (← c.materialise s calls) rest
    selectNames filtered s.columns
  else c.filterRows s predicate

def mutate (c : Compiler) (s : State) (name : String) (e : Expr) : BuildM State := do
  s.checkReferences e
  if !c.needsWindow e then c.assign s false name e
  else if c.hasWindows && !c.needsJoin e then c.assign s true name e
  else
    let (rest, calls) ← BuildM.extracting c.isWindowCall e
    let assigned ← c.assign (← c.materialise s calls) false name rest
    let columns := s.columns
    selectNames assigned (if columns.contains name then columns else columns ++ [name])

/-- Refuse assignments that refer to no column or that overwrite a grouping column. -/
def checkAssignments (s : State) : List (String × Expr) → Except Error Unit
  | [] => .ok ()
  | (name, e) :: rest => do
    s.checkReferences e
    if s.groups.contains name then
      throw (.invalidArgument "summarise" (.assignsGroup name))
    checkAssignments s rest

def summaryItem (c : Compiler) (name : String) (e : Expr) : BuildM Item := do
  let sql ← BuildM.compiling (c.compile .scalar e)
  return { name, value := .computed { expr := e, window := none, sql } }

/-- One row for every group. -/
def summarise (c : Compiler) (s : State) (assignments : List (String × Expr)) : BuildM State := do
  checkAssignments s assignments
  let s ← s.wrapIf (!s.level.isPlain)
  let computed ← assignments.mapM fun (name, e) => c.summaryItem name e
  let body : Body :=
    { s.level.body with
      items := s.groups.map Item.column ++ computed
      groupBy := s.groups
      aggregated := true }
  return { level := s.level.withBody body, groups := [], order := [] }

/-- The first element that occurred before. -/
def firstRepeated? (seen : List String) : List String → Option String
  | [] => none
  | x :: xs => if seen.contains x then some x else firstRepeated? (seen ++ [x]) xs

theorem firstRepeated?_eq_none_iff {seen xs : List String} :
    firstRepeated? seen xs = none ↔ xs.Nodup ∧ ∀ x ∈ xs, x ∉ seen := by
  induction xs generalizing seen with
  | nil => simp [firstRepeated?]
  | cons x xs ih =>
    by_cases h : x ∈ seen
    · simp [firstRepeated?, h]
    · simp only [firstRepeated?, List.contains_eq_mem, h, decide_false, Bool.false_eq_true,
        if_false, ih, List.nodup_cons, List.mem_cons, List.mem_append, List.not_mem_nil, or_false,
        not_or]
      grind

/-- Every column under its new name, if it has one. -/
def renamedIdents (columns : List String) (pairs : List (String × String)) : List Ident :=
  columns.map fun name => { name, newName := pairs.lookup name }

def rename (s : State) (pairs : List (String × String)) : BuildM State := do
  s.checkNames (pairs.map Prod.fst)
  let idents := renamedIdents s.columns pairs
  match firstRepeated? [] (idents.map Ident.output) with
  | some column => throw (.invalidArgument "rename" (.duplicateOutput column))
  | none => s.select idents

def arrange (s : State) (keys : List Expr) : Except Error State := do
  keys.forM s.checkReferences
  return { s with order := keys }

/-- Add the names that are not there yet, behind those that are. -/
def addNew (names : List String) : List String → List String
  | [] => names
  | x :: xs => if names.contains x then addNew names xs else addNew (names ++ [x]) xs

theorem nodup_addNew {names : List String} (h : names.Nodup) (xs : List String) :
    (addNew names xs).Nodup := by
  induction xs generalizing names with
  | nil => exact h
  | cons x xs ih =>
    by_cases hx : x ∈ names
    · simpa [addNew, hx] using ih h
    · have hn : (names ++ [x]).Nodup := by grind
      simpa [addNew, hx] using ih hn

def groupBy (s : State) (keys : List String) (add : Bool) : Except Error State := do
  s.checkNames keys
  return { s with groups := addNew (if add then s.groups else []) keys }

def step (c : Compiler) (s : State) : Op → BuildM State
  | .select idents => s.select idents
  | .rename pairs => rename s pairs
  | .filter predicates => predicates.foldlM c.filter s
  | .mutate assignments => assignments.foldlM (fun s (name, e) => c.mutate s name e) s
  | .summarise assignments => c.summarise s assignments
  | .arrange keys => arrange s keys
  | .groupBy keys add => groupBy s keys add
  | .ungroup => return { s with groups := [] }

def build (c : Compiler) (q : Query) : BuildM State :=
  q.ops.foldlM c.step (State.ofSource q.source)

end SqlChain.Compiler
