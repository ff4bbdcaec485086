import SqlChain.Proofs.Meaning.Compiled
import SqlChain.Proofs.Meaning.Relation

/-!
# What a level denotes

A level takes the rows of its `FROM`, keeps those that pass the `WHERE`, groups them if it is
aggregated, and evaluates its items once for every group. Joins and windows are not read.
-/

namespace SqlChain

namespace Semantics

variable {ω : Type} (M : Semantics ω)

def itemValue (item : Item) (rows : List Env) : Scalar :=
  match item.value with
  | .column _ name => groupCell rows name
  | .computed fragment => M.value fragment.expr rows
  | .rank _ => .null

/-- The rows for which every predicate holds. -/
def kept (b : Body) (source : RowSet) : RowSet :=
  { source with
    rows := source.rows.filter fun row =>
      b.filters.all fun filter => M.holds filter.expr (cell source.columns row) }

/-- The groups of rows for each of which the level has one row. Whether they are groups at all is
what the level says of itself. -/
def rowGroups (b : Body) (source : RowSet) : List (List Row) :=
  if b.aggregated then (M.kept b source).grouped b.groupBy
  else (M.kept b source).rows.map fun row => [row]

def readRow (b : Body) (source : RowSet) (group : List Row) : Row :=
  b.items.map fun item => M.itemValue item (group.map (cell source.columns))

def readBody (b : Body) (source : RowSet) : RowSet where
  columns := b.outputs
  rows := (M.rowGroups b source).map (M.readRow b source)

/-- The rows that a level denotes, provided that nothing is joined. -/
def readLevel : Level → Option RowSet
  | .table schema name body => some (M.readBody body (M.stored schema name body.inputs))
  | .subquery inner _ body => (readLevel inner).map (M.readBody body)
  | .join .. => none

/-- What stands behind the `FROM` of a level. -/
def readFrom : Level → Option RowSet
  | .table schema name body => some (M.stored schema name body.inputs)
  | .subquery inner _ _ => M.readLevel inner
  | .join .. => none

theorem readLevel_eq (level : Level) :
    M.readLevel level = (M.readFrom level).map (M.readBody level.body) := by
  cases level <;> rfl

theorem readFrom_withBody {level : Level} {b : Body} (h : b.inputs = level.body.inputs) :
    M.readFrom (level.withBody b) = M.readFrom level := by
  cases level with
  | table schema name body =>
      rw [Level.withBody, readFrom, h]
      rfl
  | subquery inner tableName body => rfl
  | join left right on body => rfl

theorem exists_of_readLevel {level : Level} {t : RowSet} (h : M.readLevel level = some t) :
    ∃ source, M.readFrom level = some source ∧ t = M.readBody level.body source := by
  rw [readLevel_eq] at h
  obtain ⟨source, hsource, ht⟩ := Option.map_eq_some_iff.1 h
  exact ⟨source, hsource, ht.symm⟩

theorem readLevel_withBody {level : Level} {b : Body} {source t : RowSet}
    (hsource : M.readFrom level = some source) (ht : M.readBody b source = t)
    (hinputs : b.inputs = level.body.inputs) :
    M.readLevel (level.withBody b) = some t := by
  rw [readLevel_eq, M.readFrom_withBody hinputs, Level.body_withBody, hsource, Option.map_some, ht]

theorem length_readRow (b : Body) (source : RowSet) (group : List Row) :
    (M.readRow b source group).length = b.outputs.length := by
  simp [readRow, Body.outputs]

theorem length_of_readLevel {level : Level} {t : RowSet} (h : M.readLevel level = some t) :
    ∀ row ∈ t.rows, row.length = t.columns.length := by
  obtain ⟨source, _, rfl⟩ := M.exists_of_readLevel h
  intro row hrow
  obtain ⟨group, _, rfl⟩ := List.mem_map.1 hrow
  exact M.length_readRow level.body source group

theorem readBody_eq (b : Body) (h : b.aggregated = false) (source : RowSet) :
    M.readBody b source =
      { columns := b.outputs
        rows := (M.kept b source).rows.map fun row => M.readRow b source [row] } := by
  rw [readBody, rowGroups, h]
  simp [Function.comp_def]

/-! ## Levels that pass columns on -/

/-- The cells are passed on by name: where some columns have one name, all get the first of them. -/
theorem readBody_identity_cells (t : RowSet) :
    M.readBody (.identity t.columns) t =
      { t with rows := t.rows.map fun row => t.columns.map (cell t.columns row) } := by
  have hkept : (M.kept (.identity t.columns) t).rows = t.rows := by
    rw [kept, List.filter_eq_self]
    exact fun _ _ => rfl
  have hrow : ∀ row ∈ t.rows,
      M.readRow (.identity t.columns) t [row] = t.columns.map (cell t.columns row) := by
    intro row _
    simp [readRow, Body.identity, Item.column, itemValue, groupCell, Function.comp_def]
  rw [M.readBody_eq _ rfl, hkept, List.map_congr_left hrow, Body.outputs_identity]

theorem readBody_identity {t : RowSet} (h : t.columns.Nodup)
    (hrows : ∀ row ∈ t.rows, row.length = t.columns.length) :
    M.readBody (.identity t.columns) t = t := by
  rw [readBody_identity_cells, List.map_congr_left fun row hrow => map_cell h (hrows row hrow),
    List.map_id']

theorem readLevel_wrap {level : Level} {t : RowSet} (h : M.readLevel level = some t)
    (hnodup : t.columns.Nodup) (tableName : String) :
    M.readLevel (level.wrap tableName) = some t := by
  have houtputs : level.outputs = t.columns := by
    obtain ⟨source, _, rfl⟩ := M.exists_of_readLevel h
    rfl
  rw [Level.wrap, readLevel, h, Option.map_some, houtputs,
    M.readBody_identity hnodup (M.length_of_readLevel h)]

/-! ## References to columns -/

theorem cell_readRow (source : RowSet) (group : List Row) (name : String) :
    cell b.outputs (M.readRow b source group) name =
      ((b.item? name).map fun item =>
        M.itemValue item (group.map (cell source.columns))).getD .null := by
  rw [Body.outputs, readRow, cell_map]
  rfl

/-- A column that can be referred to has the same cells in front of the items and behind them. -/
theorem cell_readRow_of_canReference {names : List String} (h : b.canReference names = true)
    (source : RowSet) (row : Row) :
    ∀ name ∈ names, cell b.outputs (M.readRow b source [row]) name =
      cell source.columns row name := by
  intro name hname
  obtain ⟨item, hitem, hvalue⟩ := Body.exists_of_canReference h hname
  rw [cell_readRow, hitem, Option.map_some, Option.getD_some, itemValue, hvalue]
  rfl

theorem value_readRow {e : Expr} (h : b.canReference e.columns = true) (source : RowSet)
    (group : List Row) :
    M.value e (group.map fun row => cell b.outputs (M.readRow b source [row])) =
      M.value e (group.map (cell source.columns)) :=
  M.value_congr fun row _ => M.cell_readRow_of_canReference h source row

/-! ## Predicates -/

theorem kept_append (source : RowSet) (filter : Fragment) :
    (M.kept { b with filters := b.filters ++ [filter] } source).rows =
      (M.kept b source).rows.filter fun row =>
        M.holds filter.expr (cell source.columns row) := by
  rw [kept, kept, List.filter_filter]
  refine List.filter_congr fun row _ => ?_
  rw [List.all_append, Bool.and_comm]
  simp

/-- A predicate in the `WHERE` of a level keeps the rows that it would keep behind it. -/
theorem readBody_filter (haggregated : b.aggregated = false) {filter : Fragment}
    (href : b.canReference filter.expr.columns = true) {source : RowSet} {r : Relation}
    (hr : r.toRowSet = M.readBody b source) :
    M.readBody { b with filters := b.filters ++ [filter] } source =
      (M.filterRows r filter.expr).toRowSet := by
  have hholds : ∀ row ∈ (M.kept b source).rows,
      M.holds filter.expr (cell source.columns row) =
        M.holds filter.expr (cell b.outputs (M.readRow b source [row])) := by
    intro row _
    refine M.holds_congr fun name hname => ?_
    exact (M.cell_readRow_of_canReference href source row name hname).symm
  rw [M.readBody_eq { b with filters := b.filters ++ [filter] } haggregated, kept_append,
    List.filter_congr hholds]
  rw [filterRows, hr, M.readBody_eq b haggregated]
  dsimp only
  rw [List.filter_map]
  rfl

/-! ## Assignments -/

/-- An item put into a level gives the rows that an assignment behind it gives. -/
theorem readBody_setItem (haggregated : b.aggregated = false) (hnodup : b.outputs.Nodup)
    (item : Item) {fragment : Fragment} (hitem : item.value = .computed fragment)
    (href : b.canReference fragment.expr.columns = true) {source : RowSet} {r : Relation}
    (hr : r.toRowSet = M.readBody b source) :
    M.readBody (b.setItem item) source = (M.assign r item.name fragment.expr).toRowSet := by
  have hrow : ∀ row, M.readRow (b.setItem item) source [row] =
      (withName b.outputs item.name).map fun n =>
        if n = item.name then
          M.value fragment.expr [cell b.outputs (M.readRow b source [row])]
        else cell b.outputs (M.readRow b source [row]) n := by
    intro row
    have hoperand := M.value_readRow href source [row]
    have hcells : (b.setItem item).outputs.map
        (cell (b.setItem item).outputs (M.readRow (b.setItem item) source [row])) =
          M.readRow (b.setItem item) source [row] := by
      refine map_cell ?_ (M.length_readRow (b.setItem item) source [row])
      rw [Body.outputs_setItem]
      exact nodup_withName hnodup item.name
    rw [← hcells, Body.outputs_setItem]
    refine List.map_congr_left fun n _ => ?_
    rw [← Body.outputs_setItem, cell_readRow, Body.item?_setItem]
    by_cases hn : n = item.name
    · rw [if_pos hn, if_pos hn, Option.map_some, Option.getD_some, itemValue, hitem]
      exact hoperand.symm
    · rw [if_neg hn, if_neg hn, ← cell_readRow]
  rw [M.readBody_eq (b.setItem item) haggregated, List.map_congr_left fun row _ => hrow row]
  rw [assign, hr, M.readBody_eq b haggregated, Body.outputs_setItem, List.map_map]
  rfl

/-! ## Selections -/

/-- A selection of items has the cells of the selected columns, also of a level that groups. -/
theorem readBody_selected {idents : List Ident} (h : ∀ i ∈ idents, i.name ∈ b.outputs)
    {source : RowSet} {r : Relation} (hr : r.toRowSet = M.readBody b source) :
    M.readBody { b with items := b.selected idents } source = (r.project idents).toRowSet := by
  have hrow : ∀ group, M.readRow { b with items := b.selected idents } source group =
      idents.map fun i => cell b.outputs (M.readRow b source group) i.name := by
    intro group
    refine Body.map_selected h fun i item hitem => ?_
    rw [cell_readRow, hitem]
    rfl
  rw [readBody, List.map_congr_left fun group _ => hrow group, Body.outputs,
    Body.outputs_selected h]
  rw [Relation.project, hr, readBody, List.map_map]
  rfl

/-! ## Summaries -/

theorem grouped_readBody (haggregated : b.aggregated = false) {names : List String}
    (href : b.canReference names = true) {keys : List String} (hkeys : ∀ k ∈ keys, k ∈ names)
    (source : RowSet) :
    (M.readBody b source).grouped keys =
      ((M.kept b source).grouped keys).map
        (List.map fun row => M.readRow b source [row]) := by
  rw [RowSet.grouped, RowSet.grouped, M.readBody_eq b haggregated]
  split
  · rfl
  · rw [groupsBy_map]
    congr 1
    refine groupsBy_congr fun row _ => ?_
    refine List.map_congr_left fun key hkey => ?_
    exact M.cell_readRow_of_canReference href source row key (hkeys key hkey)

section

variable {c : Compiler} {names groups : List String} {assignments : List (String × Expr)}
  {computed : List Item}

theorem readRow_summary (href : b.canReference names = true) (hgroups : ∀ g ∈ groups, g ∈ names)
    (hassignments : ∀ a ∈ assignments, ∀ n ∈ a.2.columns, n ∈ names)
    (hcomputed : List.Forall₂ (Item.Computes c) assignments computed) (source : RowSet)
    (group : List Row) :
    M.readRow (b.summary groups computed) source group =
      groups.map (groupCell (group.map fun row => cell b.outputs (M.readRow b source [row]))) ++
        assignments.map fun a =>
          M.value a.2 (group.map fun row => cell b.outputs (M.readRow b source [row])) := by
  have hcells := fun row => M.cell_readRow_of_canReference href source row
  rw [readRow, Body.summary, List.map_append, List.map_map]
  congr 1
  · refine List.map_congr_left fun g hg => ?_
    exact (groupCell_congr fun row _ => hcells row g (hgroups g hg)).symm
  · refine (map_of_computes hcomputed
      (g := fun a => M.value a.2 (group.map (cell source.columns))) ?_).trans ?_
    · rintro a _ ⟨fragment, _, hexpr, rfl⟩
      rw [← hexpr]
      rfl
    · refine List.map_congr_left fun a ha => ?_
      exact (M.value_congr fun row _ n hn => hcells row n (hassignments a ha n hn)).symm

/-- Grouping a level that passes columns on gives the summary of its rows. -/
theorem readBody_summary (haggregated : b.aggregated = false) (href : b.canReference names = true)
    (hgroups : ∀ g ∈ groups, g ∈ names)
    (hassignments : ∀ a ∈ assignments, ∀ n ∈ a.2.columns, n ∈ names)
    (hcomputed : List.Forall₂ (Item.Computes c) assignments computed) (source : RowSet) :
    M.readBody (b.summary groups computed) source =
      (M.summarise { M.readBody b source with groups } assignments).toRowSet := by
  have hcolumns : (b.summary groups computed).outputs = groups ++ assignments.map Prod.fst := by
    rw [Body.outputs, Body.summary, List.map_append, List.map_map]
    rw [map_of_computes hcomputed (g := Prod.fst) (by rintro a _ ⟨_, _, _, rfl⟩; rfl)]
    congr 1
    exact List.map_id' groups
  -- the keys pass through the level, so that its rows fall into the groups of the rows it reads
  have hgrouped := M.grouped_readBody haggregated href hgroups source
  have hrows : (M.readBody (b.summary groups computed) source).rows =
      (M.summarise { M.readBody b source with groups } assignments).rows := by
    rw [summarise, hgrouped, List.map_map]
    refine List.map_congr_left fun group _ => ?_
    refine (M.readRow_summary href hgroups hassignments hcomputed source group).trans ?_
    rw [Function.comp_apply, List.map_map]
    rfl
  rw [readBody, hcolumns]
  exact congrArg _ hrows

end

end Semantics

end SqlChain
