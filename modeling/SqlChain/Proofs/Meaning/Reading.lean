import SqlChain.Proofs.Meaning.Condition
import SqlChain.Proofs.Meaning.Level

/-!
# What every level denotes

Joins, ranks and windows are read too. A row behind a `FROM` has a row of cells for every side that
can be named. What a window comes to is left open. Levels that have neither joins nor windows are
read as before (`readLevel_eq_read`).
-/

namespace SqlChain

/-- A row behind a `FROM`, by the side that a column is named of. -/
abbrev SidedRow := Option Side → Env

def sided (left right : Env) : SidedRow
  | some .right => right
  | _ => left

def RowSet.envs (t : RowSet) : List Env := t.rows.map (cell t.columns)

/-- The rows that agree in the columns, which are all rows if there are no columns. -/
def groupsOf {α : Type} (keys : List String) (cells : α → Env) (rows : List α) : List (List α) :=
  if keys.isEmpty then [rows] else groupsBy (fun row => keys.map (cells row)) rows

theorem groupsOf_map {α β : Type} (keys : List String) (cells : β → Env) (f : α → β)
    (rows : List α) :
    groupsOf keys cells (rows.map f) =
      (groupsOf keys (fun row => cells (f row)) rows).map (List.map f) := by
  rw [groupsOf, groupsOf]
  split
  · rfl
  · exact groupsBy_map _ f rows

/-- What levels are evaluated with: an order of values beside their functions, and the value of an
expression over a window in one of the rows of a level. -/
structure Reading (ω : Type) extends Semantics ω where
  order : ValueOrder
  overWindow : Expr → Window → List Env → Env → Scalar

namespace Reading

variable {ω : Type} (R : Reading ω)

/-- Whether a row of the right side matches a row of the left side. -/
def joins (on : Matching) (left right : Env) : Bool :=
  R.passes R.order (fun table => if table = Side.right.tableName then right else left)
    on.conditions

/-- Every row of the left side with the rows that match it, or with nulls if there are none. -/
def joined (on : Matching) (left right : List Env) : List SidedRow :=
  left.flatMap fun row =>
    match right.filter (R.joins on row) with
    | [] => [sided row fun _ => .null]
    | found => found.map (sided row)

/-- One more than the number of rows, or of different values, that are counted in front. Nulls are
no values to be counted. -/
def rankValue (r : CorrelatedRank) (rows : List Env) (row : Env) : Scalar :=
  let front := rows.filter fun other =>
    R.passes R.order (fun table => if table = Compiler.rankTable then other else row) r.conditions
  let values := (front.map fun other => R.value r.key [other]).filter (!·.isNull)
  .int64 (.ofNat ((if r.dense then (distinctValues values).length else front.length) + 1))

/-- The value of an item in a group of rows, `left` being the rows of the left side and `kept` those
that passed the filters. -/
def itemValue (left : List Env) (kept group : List SidedRow) (item : Item) : Scalar :=
  match item.value with
  | .column side name => groupCell (group.map (· side)) name
  | .computed { expr, window := none, .. } => R.value expr (group.map (· none))
  | .computed { expr, window := some w, .. } =>
    R.overWindow expr w (kept.map (· none)) (groupCell (group.map (· none)))
  | .rank r => R.rankValue r left (groupCell (group.map (· (some .left))))

def rowGroups (b : Body) (rows : List SidedRow) : List (List SidedRow) :=
  if b.aggregated then groupsOf b.groupBy (· none) rows else rows.map fun row => [row]

def readBody (b : Body) (left : List Env) (rows : List SidedRow) : RowSet where
  columns := b.outputs
  rows :=
    let kept := rows.filter fun row => b.filters.all fun filter => R.holds filter.expr (row none)
    (rowGroups b kept).map fun group => b.items.map (R.itemValue left kept group)

/-- The rows that a level denotes. -/
def read : Level → RowSet
  | .table schema name body =>
    R.readBody body [] ((R.stored schema name body.inputs).envs.map fun row _ => row)
  | .subquery inner _ body =>
    R.readBody body (read inner).envs ((read inner).envs.map fun row _ => row)
  | .join left right on body =>
    R.readBody body (read left).envs (R.joined on (read left).envs (read right).envs)

theorem columns_read (level : Level) : (R.read level).columns = level.outputs := by
  cases level <;> rfl

theorem length_of_mem_read {level : Level} {row : Row} (h : row ∈ (R.read level).rows) :
    row.length = level.outputs.length := by
  have hbody : ∀ b left rows, row ∈ (R.readBody b left rows).rows → row.length = b.outputs.length := by
    intro b left rows hrow
    obtain ⟨group, _, rfl⟩ := List.mem_map.1 hrow
    simp [Body.outputs]
  cases level <;> exact hbody _ _ _ h

theorem readBody_of_filters {b : Body} (h : b.filters = []) (left : List Env)
    (rows : List SidedRow) :
    R.readBody b left rows =
      { columns := b.outputs
        rows := (rowGroups b rows).map fun group => b.items.map (R.itemValue left rows group) } := by
  have hkept : (rows.filter fun row => b.filters.all fun filter => R.holds filter.expr (row none)) =
      rows := by
    rw [h, List.filter_eq_self]
    exact fun _ _ => rfl
  rw [readBody, hkept]

/-! ## Levels without joins -/

variable {R}

theorem map_unsided (side : Option Side) (rows : List Env) :
    (rows.map fun row (_ : Option Side) => row).map (· side) = rows := by
  rw [List.map_map]
  exact List.map_id rows

theorem itemValue_of_isCompiled {c : Compiler} {item : Item} (h : item.IsCompiled c)
    (left : List Env) (kept : List SidedRow) (group : List Env) :
    R.itemValue left kept (group.map fun row _ => row) item =
      R.toSemantics.itemValue item group := by
  obtain ⟨name, value⟩ := item
  cases value with
  | column side source => exact congrArg (groupCell · source) (map_unsided side group)
  | computed fragment =>
      obtain ⟨expr, window, sql⟩ := fragment
      obtain rfl : window = none := h.window
      exact congrArg (R.value expr) (map_unsided none group)
  | rank r => exact h.elim

theorem rowGroups_map {α : Type} (b : Body) (f : α → SidedRow) (rows : List α) :
    rowGroups b (rows.map f) =
      (if b.aggregated then groupsOf b.groupBy (fun row => f row none) rows
        else rows.map fun row => [row]).map (List.map f) := by
  rw [rowGroups]
  split
  · exact groupsOf_map b.groupBy (· none) f rows
  · rw [List.map_map, List.map_map]
    rfl

theorem readBody_of_isCompiled {c : Compiler} {b : Body} (h : b.IsCompiled c) (left : List Env)
    (t : RowSet) :
    R.readBody b left (t.envs.map fun row _ => row) = R.toSemantics.readBody b t := by
  have hrows : (t.envs.map fun row (_ : Option Side) => row) =
      t.rows.map fun row _ => cell t.columns row := List.map_map
  rw [readBody, Semantics.readBody, hrows]
  congr 1
  dsimp only
  rw [List.filter_map, rowGroups_map, List.map_map]
  refine List.map_congr_left fun group _ => List.map_congr_left fun item hitem => ?_
  have hgroup : (group.map fun row (_ : Option Side) => cell t.columns row) =
      (group.map (cell t.columns)).map fun row _ => row := by
    rw [List.map_map]
    rfl
  rw [hgroup]
  exact itemValue_of_isCompiled (h.items item hitem) _ _ _

theorem readLevel_eq_read {c : Compiler} {level : Level} (h : level.IsCompiled c) :
    R.readLevel level = some (R.read level) := by
  induction level with
  | table schema name body => exact congrArg some (readBody_of_isCompiled h _ _).symm
  | subquery inner name body ih =>
      rw [Semantics.readLevel, ih h.1, Option.map_some, read, readBody_of_isCompiled h.2]
  | join => exact h.elim

end Reading

end SqlChain
