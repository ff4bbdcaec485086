import SqlChain.Proofs.Group.Assembly
import SqlChain.Proofs.Group.Stop

/-!
# Results that are looked up

A column is found in a table by the first place of its name. The names of a flattened result are
those of the labels, and behind them those of the computations, which are different from each other
but may be names of labels too. A computation with the name of a label is therefore not found.
-/

namespace SqlChain

variable {σ ω : Type}

namespace RowSet

variable {labels : RowSet} {names : List String} {columns : List (List Scalar)} {name : String}

/-- The table with more columns, each of which has a cell for every row. -/
def withColumns (labels : RowSet) (names : List String) (columns : List (List Scalar)) :
    RowSet where
  columns := labels.columns ++ names
  rows := labels.rows.mapIdx fun i row => row ++ columns.filterMap (·[i]?)

theorem mapM_eq_some_of_forall₂ {α β : Type} {f : α → Option β} {as : List α} {bs : List β}
    (h : List.Forall₂ (fun a b => f a = some b) as bs) : as.mapM f = some bs := by
  induction h with
  | nil => rfl
  | cons hhead _ ih => simp [List.mapM_cons, hhead, ih]

theorem column?_of_cells {t : RowSet} {i : Nat} (hindex : t.columnIndex? name = some i)
    {cells : List Scalar} (hlength : t.rows.length = cells.length)
    (hcells : ∀ k (hk : k < t.rows.length) (hk' : k < cells.length),
      t.rows[k][i]? = some cells[k]) :
    t.column? name = some cells := by
  have hrows : t.rows.mapM (·[i]?) = some cells :=
    mapM_eq_some_of_forall₂ (List.forall₂_iff_get.2 ⟨hlength, hcells⟩)
  rw [column?, hindex]
  exact hrows

theorem exists_columnIndex? (names : List String) (columns : List (List Scalar))
    (h : name ∈ labels.columns) :
    ∃ i < labels.columns.length, labels.columnIndex? name = some i ∧
      (labels.withColumns names columns).columnIndex? name = some i := by
  cases hindex : labels.columnIndex? name with
  | none =>
      rw [columnIndex?, List.findIdx?_eq_none_iff] at hindex
      simpa using hindex name h
  | some i =>
      obtain ⟨hi, _⟩ := List.findIdx?_eq_some_iff_getElem.1 hindex
      refine ⟨i, hi, rfl, ?_⟩
      rw [columnIndex?] at hindex
      rw [columnIndex?, withColumns, List.findIdx?_append, hindex, Option.some_or]

theorem columnIndex?_withColumns_of_not_mem (h : name ∉ labels.columns) (hnodup : names.Nodup)
    {j : Nat} (hj : names[j]? = some name) :
    (labels.withColumns names columns).columnIndex? name = some (labels.columns.length + j) := by
  obtain ⟨hlt, rfl⟩ := List.getElem?_eq_some_iff.1 hj
  have hfront : labels.columns.findIdx? (· == names[j]) = none := by
    rw [List.findIdx?_eq_none_iff]
    intro other hother
    simpa using ne_of_mem_of_not_mem hother h
  have hback : names.findIdx? (· == names[j]) = some j := by
    rw [List.findIdx?_eq_some_iff_getElem]
    exact ⟨hlt, by simp, fun i hi => by simpa using (List.pairwise_iff_getElem.1 hnodup) i j _ _ hi⟩
  rw [columnIndex?, withColumns, List.findIdx?_append, hfront, hback, Option.none_or,
    Option.map_some, Nat.add_comm]

theorem nodup_columns_withColumns_iff (hlabels : labels.columns.Nodup) (hnames : names.Nodup) :
    (labels.withColumns names columns).columns.Nodup ↔ ∀ name ∈ names, name ∉ labels.columns := by
  rw [withColumns, List.nodup_append]
  constructor
  · exact fun h name hname hlabel => h.2.2 name hlabel name hname rfl
  · exact fun h => ⟨hlabels, hnames, fun name hlabel other hother heq =>
      h other hother (heq ▸ hlabel)⟩

theorem getElem?_filterMap_getElem? {i : Nat} (h : ∀ column ∈ columns, i < column.length)
    (j : Nat) :
    (columns.filterMap (·[i]?))[j]? = columns[j]?.bind (·[i]?) := by
  induction columns generalizing j with
  | nil => rfl
  | cons column columns ih =>
      have hi : i < column.length := h column (by simp)
      have hcell : column[i]? = some column[i] := List.getElem?_eq_getElem hi
      have hrest := ih fun other hother => h other (List.mem_cons_of_mem _ hother)
      cases j with
      | zero => simp [hcell]
      | succ j => simpa [hcell] using hrest j

/-- What was there is found as before. -/
theorem column?_withColumns_of_mem (hwide : ∀ row ∈ labels.rows, row.length = labels.columns.length)
    (h : name ∈ labels.columns) :
    ∃ cells, labels.column? name = some cells ∧
      (labels.withColumns names columns).column? name = some cells := by
  obtain ⟨i, hi, hlabels, hall⟩ := exists_columnIndex? names columns h
  have hcell (row : Row) (hrow : row ∈ labels.rows) : row[i]? = some (row[i]?.getD .null) := by
    rw [List.getElem?_eq_getElem ((hwide row hrow).symm ▸ hi), Option.getD_some]
  refine ⟨labels.rows.map fun row => row[i]?.getD .null, column?_of_cells hlabels (by simp) ?_,
    column?_of_cells hall (by simp [withColumns]) ?_⟩
  · intro k hk _
    simpa using hcell _ (List.getElem_mem hk)
  · intro k hk hk'
    rw [List.length_map] at hk'
    have hrow := List.getElem_mem hk'
    have hleft : i < labels.rows[k].length := (hwide _ hrow).symm ▸ hi
    simp only [withColumns, List.getElem_mapIdx, List.getElem_map,
      List.getElem?_append_left hleft]
    exact hcell _ hrow

/-- A new name is found where it was added. -/
theorem column?_withColumns_of_not_mem
    (hwide : ∀ row ∈ labels.rows, row.length = labels.columns.length)
    (hlength : ∀ column ∈ columns, column.length = labels.rows.length) (hnodup : names.Nodup)
    (h : name ∉ labels.columns) {j : Nat} (hj : names[j]? = some name) {column : List Scalar}
    (hcolumn : columns[j]? = some column) :
    (labels.withColumns names columns).column? name = some column := by
  have hcolumn' := hlength column (List.mem_of_getElem? hcolumn)
  refine column?_of_cells (columnIndex?_withColumns_of_not_mem h hnodup hj)
    (by simp [withColumns, hcolumn']) fun k hk hk' => ?_
  have hcells : ∀ column ∈ columns, k < column.length := fun other hother => by
    rw [hlength other hother, ← hcolumn']
    exact hk'
  have hrow := hwide _ (List.getElem_mem (hcolumn' ▸ hk'))
  simp [withColumns, List.getElem?_append_right, hrow, getElem?_filterMap_getElem? hcells, hcolumn,
    List.getElem?_eq_getElem hk']

end RowSet

open SqlChain.Computation

namespace Query

variable {q : Query} {connection : Connection} {config : Config}
  {computations : List (Computation σ ω)} {client : σ} {aborted : Bool} {rendered : Rendered}
  {labels : RowSet}

/-- The calls and the values of an execution that succeeds, by group and then by computation. -/
theorem exists_values_of_ok
    (h : q.beginning connection config computations = .ok (rendered, labels))
    (hnamed : ∀ c ∈ computations, c.name.isSome) {result : Result ω}
    (hok : (q.execute connection config computations client aborted).outcome = .ok result) :
    let made := callsFor computations rendered.columns (due connection config rendered labels)
    ∃ values : List (List (GroupValue ω)),
      q.calls connection config computations client aborted =
        made.map (fun x => (x.1.name, x.2)) ∧
      Return made client values.flatten ∧
      values.length = labels.rows.length ∧ (∀ vs ∈ values, vs.length = computations.length) ∧
      result.output = .perGroup labels (computations.mapIdx fun j c =>
        (c.name.getD "", values.filterMap (·[j]?))) := by
  intro made
  obtain ⟨calls, ended, hcalled, _, _, hended, houtcome⟩ := exists_ended h client aborted
  rw [houtcome] at hok
  obtain ⟨_, hfinished, hok⟩ := exists_of_bind_eq_ok hok
  obtain ⟨output, houtput, hok⟩ := exists_of_bind_eq_ok hok
  obtain ⟨_, _, _, hlength, values, hserved⟩ := hended.of_ok hfinished
  have hvalues := hserved.served.length_eq.trans hlength
  rw [hserved.slots_eq, Output.assemble_slotsOf hnamed hvalues] at houtput
  cases houtput
  cases hok
  obtain rfl : calls = made := (hfinished ▸ hended.course).of_ok
  exact ⟨values, hcalled, hserved.served.returned, hvalues, hserved.served.width, rfl⟩

end Query

/-- The columns of named scalars, computation by computation. -/
theorem flatten_perGroup_scalars {computations : List (Computation σ ω)} {labels : RowSet}
    {scalars : List (List Scalar)} (hlength : scalars.length = labels.rows.length)
    (hwidth : ∀ vs ∈ scalars, vs.length = computations.length) :
    Output.flatten (.perGroup labels (computations.mapIdx fun j c =>
        (c.name.getD "", (scalars.map (·.map (GroupValue.scalar (ω := ω)))).filterMap (·[j]?)))) =
      .ok (labels.withColumns (computations.map (·.name.getD ""))
        ((List.range computations.length).map fun j => scalars.filterMap (·[j]?))) := by
  have hcolumns : (computations.mapIdx fun j c =>
      (c.name.getD "", (scalars.map (·.map (GroupValue.scalar (ω := ω)))).filterMap (·[j]?))) =
        (computations.map (·.name.getD "")).zip
          (((List.range computations.length).map fun j => scalars.filterMap (·[j]?)).map
            (·.map .scalar)) := by
    apply List.ext_getElem <;> simp [List.filterMap_map, List.map_filterMap, Function.comp_def]
  rw [hcolumns]
  refine Output.appendColumns_scalars labels (by simp) fun column hcolumn => ?_
  obtain ⟨j, hj, rfl⟩ := List.mem_map.1 hcolumn
  rw [length_filterMap_getElem? (List.mem_range.1 hj) hwidth, hlength]

namespace Query

variable {q : Query} {connection : Connection} {config : Config}
  {computations : List (Computation σ ω)} {client : σ} {aborted : Bool} {rendered : Rendered}
  {labels : RowSet}

theorem wellNamed_of_beginning_ok {begun : Rendered × RowSet}
    (h : q.beginning connection config computations = .ok begun) :
    WellNamed (computations.map (·.name)) := by
  cases hs : q.statements connection.dialect config computations with
  | error e => simp [beginning, hs] at h
  | ok s => exact (exists_statements_iff.1 ⟨s, hs, rfl⟩).1

theorem nodup_names_of_beginning_ok {begun : Rendered × RowSet}
    (h : q.beginning connection config computations = .ok begun)
    (hnamed : ∀ c ∈ computations, c.name.isSome) : (computations.map (·.name.getD "")).Nodup := by
  have hnames : (computations.map (·.name)).Nodup := by
    rcases wellNamed_of_beginning_ok h with hnone | ⟨_, _, hnodup⟩
    · simp [hnone]
    · exact hnodup
  rw [List.Nodup, List.pairwise_map] at hnames ⊢
  refine hnames.imp_of_mem fun {c d} hc hd hne heq => hne ?_
  obtain ⟨name, hname⟩ := Option.isSome_iff_exists.1 (hnamed c hc)
  obtain ⟨other, hother⟩ := Option.isSome_iff_exists.1 (hnamed d hd)
  simpa [hname, hother] using heq

/-- The results of named computations that return scalars can be read from one table. A computation
is found by its name unless this is the name of a grouping column, which is found in its place. The
names are all different when there is no such computation. -/
theorem execute_lookup
    (h : q.beginning connection config computations = .ok (rendered, labels))
    (hnamed : ∀ c ∈ computations, c.name.isSome) {result : Result ω}
    (hok : (q.execute connection config computations client aborted).outcome = .ok result)
    (hcolumns : labels.columns = rendered.groups) (hnodup : labels.columns.Nodup)
    (hwide : ∀ row ∈ labels.rows, row.length = labels.columns.length)
    (hscalars : ∀ answer ∈ (replay (callsFor computations rendered.columns
      (due connection config rendered labels)) client).2,
        ∃ scalar, answer = .ok (.scalar scalar)) :
    let made := callsFor computations rendered.columns (due connection config rendered labels)
    ∃ (values : List (List Scalar)) (table : RowSet),
      q.calls connection config computations client aborted =
        made.map (fun x => (x.1.name, x.2)) ∧
      (replay made client).2 = values.flatten.map (fun scalar => .ok (.scalar scalar)) ∧
      values.length = labels.rows.length ∧ (∀ vs ∈ values, vs.length = computations.length) ∧
      result.output.flatten = .ok table ∧
      table.columns = rendered.groups ++ computations.map (·.name.getD "") ∧
      (table.columns.Nodup ↔ ∀ c ∈ computations, c.name.getD "" ∉ rendered.groups) ∧
      (∀ (j : Nat) (c : Computation σ ω), computations[j]? = some c → c.name.getD "" ∉ rendered.groups →
        table.column? (c.name.getD "") = some (values.filterMap (·[j]?))) ∧
      ∀ name ∈ rendered.groups, ∃ cells,
        labels.column? name = some cells ∧ table.column? name = some cells := by
  intro made
  obtain ⟨values, hcalled, hreturn, hlength, hwidth, houtput⟩ := exists_values_of_ok h hnamed hok
  have hnames := nodup_names_of_beginning_ok h hnamed
  rw [Return] at hreturn
  obtain ⟨scalars, rfl⟩ : ∃ scalars : List (List Scalar), values = scalars.map (·.map .scalar) := by
    refine Output.exists_scalars fun vs hvs value hvalue => ?_
    obtain ⟨scalar, hscalar⟩ := hscalars (.ok value) (by
      rw [hreturn]
      exact List.mem_map_of_mem (List.mem_flatten.2 ⟨vs, hvs, hvalue⟩))
    exact ⟨scalar, Except.ok.inj hscalar⟩
  rw [List.length_map] at hlength
  have hwidth' : ∀ vs ∈ scalars, vs.length = computations.length := fun vs hvs => by
    simpa using hwidth _ (List.mem_map_of_mem hvs)
  rw [← hcolumns]
  refine ⟨scalars, _, hcalled, ?_, hlength, hwidth',
    houtput ▸ flatten_perGroup_scalars hlength hwidth', rfl, ?_, fun j c hj hnew => ?_,
    fun name hname => RowSet.column?_withColumns_of_mem hwide hname⟩
  · rw [hreturn, ← List.map_flatten, List.map_map]
    rfl
  · exact (RowSet.nodup_columns_withColumns_iff hnodup hnames).trans List.forall_mem_map
  · have hname : (computations.map (·.name.getD ""))[j]? = some (c.name.getD "") := by simp [hj]
    refine RowSet.column?_withColumns_of_not_mem hwide (fun column hcolumn => ?_) hnames hnew
      hname ?_
    · obtain ⟨i, hi, rfl⟩ := List.mem_map.1 hcolumn
      rw [length_filterMap_getElem? (List.mem_range.1 hi) hwidth', hlength]
    · have hlt := (List.getElem?_eq_some_iff.1 hj).1
      simp [hlt]

/-- The numbers of rows of two groups, counted by a computation with a name of its own. -/
theorem execute_lookup_counts :
    let q : Query :=
      { source := { schema := none, name := "t", columns := ["g", "v"] }
        ops := [.groupBy ["g"] false] }
    let page : RowSet :=
      { columns := ["g", "v"]
        rows := [[.utf8 "a", .int64 1], [.utf8 "a", .int64 2], [.null, .int64 3]] }
    let connection : Connection :=
      { dialect := Dialect.ansi
        execute := fun _ => .ok { columns := ["g"], rows := [[.utf8 "a"], [.null]] }
        fetch := fun _ _ => { pages := [page], failure := none } }
    let count : Computation Unit Empty :=
      { name := some "n"
        run := fun group _ =>
          { value := .ok (.scalar (.int64 (Int64.ofNat group.rows.rows.length)))
            state := ()
            abort := false } }
    ∃ (result : Result Empty) (table : RowSet) (values : List (List Scalar)),
      (q.execute connection .default [count] () false).outcome = .ok result ∧
      result.output.flatten = .ok table ∧ table.columns = ["g", "n"] ∧ table.columns.Nodup ∧
      table.column? "g" = some [.utf8 "a", .null] ∧
      table.column? "n" = some (values.filterMap (·[0]?)) ∧
      values.flatten = [.int64 2, .int64 1] := by
  intro q page connection count
  obtain ⟨rendered, labels, h, hgroups, hlabels, hanswers⟩ : ∃ rendered labels,
      q.beginning connection .default [count] = .ok (rendered, labels) ∧
        rendered.groups = ["g"] ∧ labels = ⟨["g"], [[.utf8 "a"], [.null]]⟩ ∧
        (replay (callsFor [count] rendered.columns (due connection .default rendered labels)) ()).2 =
          [Scalar.int64 2, .int64 1].map fun scalar => .ok (.scalar scalar) := by
    subst connection q
    exact ⟨_, _, rfl, rfl, rfl, rfl⟩
  have hsome : (q.execute connection .default [count] () false).outcome.toOption.isSome = true := by
    decide +kernel
  cases hok : (q.execute connection .default [count] () false).outcome with
  | error e => simp [hok, Except.toOption] at hsome
  | ok result =>
      subst hlabels
      obtain ⟨values, table, _, hreplay, _, _, hflatten, hcolumns, hdistinct, hnew, hold⟩ :=
        execute_lookup h (by simp [count]) hok hgroups.symm (by decide) (by decide) (by
          rw [hanswers]
          simp)
      rw [hgroups] at hcolumns hdistinct hnew hold
      have hname : "n" ∉ ["g"] := by decide
      obtain ⟨cells, hcells, hg⟩ := hold "g" (by decide)
      refine ⟨result, table, values, rfl, hflatten, hcolumns, hdistinct.2 (by simp [count]),
        hg.trans (hcells.symm.trans (by decide)), hnew 0 count rfl hname, ?_⟩
      have hinjective : Function.Injective fun scalar : Scalar =>
          (.ok (.scalar scalar) : Except String (GroupValue Empty)) := by
        rintro x y ⟨⟩
        rfl
      exact List.map_injective_iff.2 hinjective (hreplay.symm.trans hanswers)

/-- A computation with the name of the grouping column. Its values are in the table, and what is
found by its name are the labels. -/
theorem execute_lookup_clash :
    let q : Query :=
      { source := { schema := none, name := "t", columns := ["g", "v"] }
        ops := [.groupBy ["g"] false] }
    let page : RowSet :=
      { columns := ["g", "v"]
        rows := [[.utf8 "a", .int64 1], [.utf8 "a", .int64 2], [.null, .int64 3]] }
    let connection : Connection :=
      { dialect := Dialect.ansi
        execute := fun _ => .ok { columns := ["g"], rows := [[.utf8 "a"], [.null]] }
        fetch := fun _ _ => { pages := [page], failure := none } }
    let count : Computation Unit Empty :=
      { name := some "g"
        run := fun group _ =>
          { value := .ok (.scalar (.int64 (Int64.ofNat group.rows.rows.length)))
            state := ()
            abort := false } }
    let flat := (q.execute connection .default [count] () false).outcome.toOption.bind
      fun result => result.output.flatten.toOption
    flat = some ⟨["g", "g"], [[.utf8 "a", .int64 2], [.null, .int64 1]]⟩ ∧
      flat.bind (·.column? "g") = some [.utf8 "a", .null] := by
  decide +kernel

end Query

end SqlChain
