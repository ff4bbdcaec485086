import SqlChain.Proofs.Chain.Windowed
import SqlChain.Proofs.Meaning.Emulation
import SqlChain.Proofs.Meaning.Listing

/-!
# What levels with windows denote

The clauses of a level are read in their order: rows are joined, filtered and grouped, then the calls
over a window are evaluated among the rows that are left, and then the items are picked. A row is
known by its place, so that equal rows are told apart.
-/

namespace SqlChain

namespace Windows

open Reading (rowGroups rowGroups_map)

variable {ω : Type} (W : Windows ω)

/-- How everything but a window is read. -/
def reading : Reading ω :=
  { W.toSemantics with order := W.order, overWindow := fun _ _ _ _ => .null }

/-- The value of an item in a group at its place among the groups of the level. -/
def itemAt (left : List Env) (p : Place (List SidedRow)) (item : Item) : Scalar :=
  match item.value with
  | .computed { expr, window := some w, .. } =>
    W.valueAt w (p.map fun group => groupCell (group.map (· none))) expr
  | _ => W.reading.itemValue left [] p.here item

def readBody (b : Body) (left : List Env) (rows : List SidedRow) : RowSet where
  columns := b.outputs
  rows :=
    let kept := rows.filter fun row => b.filters.all fun filter => W.holds filter.expr (row none)
    (places (rowGroups b kept)).map fun p => b.items.map (W.itemAt left p)

/-- The rows that a level denotes. -/
def read : Level → RowSet
  | .table schema name body =>
    W.readBody body [] ((W.stored schema name body.inputs).envs.map fun row _ => row)
  | .subquery inner _ body =>
    W.readBody body (read inner).envs ((read inner).envs.map fun row _ => row)
  | .join left right on body =>
    W.readBody body (read left).envs (W.reading.joined on (read left).envs (read right).envs)

/-- The clauses of a level are read over the same rows whatever they are. -/
theorem exists_from (level : Level) :
    ∃ left rows, (∀ b : Body, b.inputs = level.body.inputs →
        W.read (level.withBody b) = W.readBody b left rows) ∧
      (level.isJoin = false → ∃ t : RowSet, rows = t.envs.map fun row _ => row) := by
  cases level with
  | table schema name body =>
      refine ⟨[], _, fun b hinputs => ?_, fun _ => ⟨W.stored schema name body.inputs, rfl⟩⟩
      rw [Level.withBody, read, hinputs]
      rfl
  | subquery inner name body => exact ⟨_, _, fun _ _ => rfl, fun _ => ⟨W.read inner, rfl⟩⟩
  | join left right on body =>
      refine ⟨_, _, fun _ _ => rfl, fun hjoin => ?_⟩
      cases hjoin

theorem columns_read (level : Level) : (W.read level).columns = level.outputs := by
  cases level <;> rfl

theorem length_of_mem_read {level : Level} {row : Row} (h : row ∈ (W.read level).rows) :
    row.length = level.outputs.length := by
  have hbody : ∀ b left rows, row ∈ (W.readBody b left rows).rows →
      row.length = b.outputs.length := by
    intro b left rows hrow
    obtain ⟨group, _, rfl⟩ := List.mem_map.1 hrow
    simp [Body.outputs]
  cases level <;> exact hbody _ _ _ h

/-! ## Levels without windows -/

variable {W} {b : Body}

theorem itemAt_of_isWindowless {item : Item} (h : item.IsWindowless) (left : List Env)
    (kept : List SidedRow) (p : Place (List SidedRow)) :
    W.itemAt left p item = W.reading.itemValue left kept p.here item := by
  obtain ⟨name, value⟩ := item
  cases value with
  | column | rank => rfl
  | computed f =>
      obtain ⟨expr, window, sql⟩ := f
      obtain rfl : window = none := h _ rfl
      rfl

theorem readBody_of_isWindowless (h : ∀ item ∈ b.items, item.IsWindowless) (left : List Env)
    (rows : List SidedRow) : W.readBody b left rows = W.reading.readBody b left rows := by
  rw [readBody, Reading.readBody]
  congr 1
  dsimp only
  conv_rhs => rw [← map_here_places (rowGroups b _)]
  rw [List.map_map]
  refine List.map_congr_left fun p _ => List.map_congr_left fun item hitem => ?_
  exact itemAt_of_isWindowless (h item hitem) left _ p

/-! ## Levels with a row for every row -/

theorem readBody_eq (h : b.aggregated = false) (left : List Env) (rows : List SidedRow) :
    W.readBody b left rows =
      { columns := b.outputs
        rows := (places (rows.filter fun row =>
            b.filters.all fun filter => W.holds filter.expr (row none))).map fun p =>
          b.items.map (W.itemAt left (p.map ([·]))) } := by
  have hgroups : ∀ kept, rowGroups b kept = kept.map fun row => [row] :=
    fun _ => if_neg (by simp [h])
  rw [readBody]
  dsimp only
  rw [hgroups, places_map, List.map_map]
  rfl

theorem cell_items (f : Item → Scalar) (name : String) :
    cell b.outputs (b.items.map f) name = ((b.item? name).map f).getD .null :=
  cell_map b.items (·.name) f name

/-- A column that can be referred to has the same cells in front of the items and behind them. -/
theorem cell_of_canReference {names : List String} (h : b.canReference names = true)
    (left : List Env) (p : Place SidedRow) :
    ∀ n ∈ names, cell b.outputs (b.items.map (W.itemAt left (p.map ([·])))) n = p.here none n := by
  intro n hn
  obtain ⟨item, hitem, hvalue⟩ := Body.exists_of_canReference h hn
  rw [cell_items, hitem, Option.map_some, Option.getD_some, itemAt, hvalue]
  simp only [Reading.itemValue, hvalue]
  rfl

/-- A predicate in the `WHERE` of a level without windows keeps the rows that it would keep behind
it. -/
theorem readBody_filter (haggregated : b.aggregated = false)
    (hitems : ∀ item ∈ b.items, item.IsWindowless) {f : Fragment}
    (href : b.canReference f.expr.columns = true) (left : List Env) (rows : List SidedRow) :
    W.readBody { b with filters := b.filters ++ [f] } left rows =
      { columns := b.outputs
        rows := (W.readBody b left rows).rows.filter fun row =>
          W.holds f.expr (cell b.outputs row) } := by
  have hkept : (rows.filter fun row =>
      (b.filters ++ [f]).all fun filter => W.holds filter.expr (row none)) =
        (rows.filter fun row => b.filters.all fun filter => W.holds filter.expr (row none)).filter
          fun row => W.holds f.expr (row none) := by
    rw [List.filter_filter]
    refine List.filter_congr fun row _ => ?_
    rw [List.all_append, Bool.and_comm]
    simp
  -- without windows an item depends on its own row, so that places do not matter
  have hrows : ∀ kept : List SidedRow,
      ((places kept).map fun p => b.items.map (W.itemAt left (p.map ([·])))) =
        kept.map fun row => b.items.map (W.reading.itemValue left [] [row]) := by
    intro kept
    conv_rhs => rw [← map_here_places kept]
    rw [List.map_map]
    refine List.map_congr_left fun p _ => List.map_congr_left fun item hitem => ?_
    exact itemAt_of_isWindowless (hitems item hitem) left [] _
  have hholds : ∀ row : SidedRow, W.holds f.expr (row none) =
      W.holds f.expr (cell b.outputs (b.items.map (W.reading.itemValue left [] [row]))) := by
    intro row
    refine W.holds_congr fun n hn => ?_
    refine (cell_of_canReference (W := W) href left ⟨[], row, []⟩ n hn).symm.trans ?_
    refine congrArg (cell b.outputs · n) (List.map_congr_left fun item hitem => ?_)
    exact itemAt_of_isWindowless (hitems item hitem) left [] _
  rw [readBody_eq haggregated, readBody_eq (by exact haggregated), hkept, hrows]
  dsimp only
  rw [hrows, List.filter_map, List.filter_congr fun row _ => hholds row]
  rfl

/-! ## Assignments -/

/-- The value of a fragment in a row at its place. -/
def fragmentAt (W : Windows ω) (f : Fragment) (p : Place Env) : Scalar :=
  match f.window with
  | none => W.value f.expr [p.here]
  | some w => W.valueAt w p f.expr

theorem fragmentAt_congr {α : Type} {f g : α → Env} {p : Place α} {fragment : Fragment}
    (h : ∀ x ∈ p.all, ∀ n ∈ fragment.columns, f x n = g x n) :
    W.fragmentAt fragment (p.map f) = W.fragmentAt fragment (p.map g) := by
  obtain ⟨expr, window, sql⟩ := fragment
  cases window with
  | none =>
      have hhere : ∀ x ∈ [p.here], ∀ n ∈ expr.columns, f x n = g x n := by
        intro x hx n hn
        rw [List.mem_singleton.1 hx]
        exact h p.here p.here_mem_all n (List.mem_append_left _ hn)
      exact W.value_congr hhere
  | some w =>
      refine W.valueAt_congr (fun x hx n hn => h x hx n ?_) fun x hx n hn => h x hx n ?_
      · exact List.mem_append_right _ (List.mem_flatMap.2 ⟨w, List.mem_singleton_self w, hn⟩)
      · exact List.mem_append_left _ hn

theorem itemAt_computed (left : List Env) (p : Place SidedRow) (name : String) (f : Fragment) :
    W.itemAt left (p.map ([·])) { name, value := .computed f } =
      W.fragmentAt f (p.map fun row => row none) := by
  obtain ⟨expr, window, sql⟩ := f
  cases window with
  | none => rfl
  | some w =>
      rw [itemAt, fragmentAt]
      dsimp only
      rw [Place.map_map]
      rfl

/-- The cells of a row after an item was put into the level. -/
theorem map_setItem (hnodup : b.outputs.Nodup) (item : Item) (f : Item → Scalar) :
    (b.setItem item).items.map f =
      (withName b.outputs item.name).map fun n =>
        if n = item.name then f item else cell b.outputs (b.items.map f) n := by
  have hcells : (b.setItem item).outputs.map
      (cell (b.setItem item).outputs ((b.setItem item).items.map f)) =
        (b.setItem item).items.map f := by
    refine map_cell ?_ (by simp [Body.outputs])
    rw [Body.outputs_setItem]
    exact nodup_withName hnodup item.name
  rw [← hcells, Body.outputs_setItem]
  refine List.map_congr_left fun n _ => ?_
  rw [← Body.outputs_setItem, cell_items, Body.item?_setItem]
  by_cases hn : n = item.name
  · rw [if_pos hn, if_pos hn]
    rfl
  · rw [if_neg hn, if_neg hn, cell_items]

/-- An item put into a level gives the rows that an assignment behind it gives. A window of it has
the rows that are left by the predicates of the level, which are those behind it. -/
theorem readBody_setItem (haggregated : b.aggregated = false) (hnodup : b.outputs.Nodup)
    (name : String) {f : Fragment} (href : b.canReference f.columns = true) (windowed : Bool)
    {left : List Env} {rows : List SidedRow} {l : Listing}
    (hl : l.toRowSet = W.readBody b left rows) :
    W.readBody { b.setItem { name, value := .computed f } with windowed } left rows =
      (l.assign name (W.fragmentAt f)).toRowSet := by
  rw [readBody_eq (by exact haggregated), Listing.assign, hl, readBody_eq haggregated,
    places_map, List.map_map]
  refine congrArg₂ RowSet.mk (Body.outputs_setItem _) ?_
  rw [map_places]
  refine List.map_congr_left fun p hp => ?_
  have hvalue : W.fragmentAt f (p.here.map fun row => row none) =
      W.fragmentAt f ((p.map fun q => b.items.map (W.itemAt left (q.map ([·])))).map
        (cell b.outputs)) := by
    rw [← map_here_of_mem_places hp, Place.map_map, Place.map_map]
    refine fragmentAt_congr fun q _ n hn => ?_
    exact (cell_of_canReference href left q n hn).symm
  refine (map_setItem hnodup _ _).trans (List.map_congr_left fun n _ => ?_)
  rw [itemAt_computed, hvalue]
  rfl

/-! ## Selections -/

/-- A selection of items has the cells of the selected columns, also of a level that groups. -/
theorem readBody_selected {idents : List Ident} (h : ∀ i ∈ idents, i.name ∈ b.outputs)
    (left : List Env) (rows : List SidedRow) :
    W.readBody { b with items := b.selected idents } left rows =
      { columns := idents.map Ident.output
        rows := (W.readBody b left rows).rows.map fun row =>
          idents.map fun i => cell b.outputs row i.name } := by
  have hrow : ∀ p, (b.selected idents).map (W.itemAt left p) =
      idents.map fun i => cell b.outputs (b.items.map (W.itemAt left p)) i.name := by
    intro p
    refine Body.map_selected h fun i item hitem => ?_
    rw [cell_items, hitem]
    rfl
  rw [readBody, readBody, Body.outputs]
  dsimp only
  rw [Body.outputs_selected h, List.map_congr_left fun p _ => hrow p, List.map_map]
  rfl

/-! ## Levels that pass columns on -/

theorem readBody_identity_eq (t : RowSet) (left : List Env) :
    W.readBody (.identity t.columns) left (t.envs.map fun row _ => row) =
      W.toSemantics.readBody (.identity t.columns) t := by
  have hcompiled := Body.isCompiled_identity (c := .builtin .ansi .default) t.columns
  rw [readBody_of_isWindowless Body.isWindowless_identity]
  exact Reading.readBody_of_isCompiled hcompiled left t

theorem readBody_identity {t : RowSet} (h : t.columns.Nodup)
    (hrows : ∀ row ∈ t.rows, row.length = t.columns.length) (left : List Env) :
    W.readBody (.identity t.columns) left (t.envs.map fun row _ => row) = t :=
  (readBody_identity_eq t left).trans (W.toSemantics.readBody_identity h hrows)

theorem read_wrap {level : Level} (h : level.outputs.Nodup) (name : String) :
    W.read (level.wrap name) = W.read level := by
  rw [Level.wrap, read, ← W.columns_read level]
  refine readBody_identity (by rwa [W.columns_read]) (fun row hrow => ?_) _
  rw [W.columns_read]
  exact W.length_of_mem_read hrow

/-- Whatever the columns are called, the cells that are referred to by their names are passed on. -/
theorem envs_read_wrap (level : Level) (name : String) :
    (W.read (level.wrap name)).envs = (W.read level).envs := by
  rw [Level.wrap, read, ← W.columns_read level, readBody_identity_eq,
    Semantics.readBody_identity_cells, RowSet.envs, List.map_map]
  exact List.map_congr_left fun row _ => cell_map_cell _ row

end Windows

end SqlChain
