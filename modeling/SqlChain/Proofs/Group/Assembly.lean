import Mathlib.Data.Set.List
import SqlChain.Proofs.Group.Due

/-!
# Results put together

Slots that are all filled give a column of values for every computation. The tables of a single
computation can be put one below the other when they have the same columns, and the first value at
which this stops being so is the one that is reported (`FirstMisfit`). The columns of named
computations are put behind the labels one after another, which works as long as the values are
scalars.
-/

namespace SqlChain

namespace Output

variable {ω : Type}

/-! ## Slots and gaps -/

theorem mapM_filled_map_some (expected : Nat) (columns : List (List (GroupValue ω))) :
    (columns.map (·.map some)).mapM (filled expected) = .ok columns := by
  have hvalues : (filled expected ∘ fun values : List (GroupValue ω) => values.map some) =
      fun values => (pure values : Except Error (List (GroupValue ω))) :=
    funext fun values => filled_map_some expected values
  rw [List.mapM_map, hvalues]
  simpa [pure, Except.pure] using List.mapM_pure (m := Except Error) (f := id) (l := columns)

theorem mapM_filled_gap (expected : Nat) (front : List (List (GroupValue ω)))
    {column : List (Option (GroupValue ω))} (h : none ∈ column)
    (back : List (List (Option (GroupValue ω)))) :
    (front.map (·.map some) ++ column :: back).mapM (filled expected) =
      .error (.groupCountMismatch expected (column.countP Option.isSome)) := by
  have hcolumn : filled expected column =
      .error (.groupCountMismatch expected (column.countP Option.isSome)) := by
    have hnone : column.mapM id = none := by
      obtain ⟨a, b, rfl⟩ := List.append_of_mem h
      simp
    rw [filled, hnone]
  rw [List.mapM_append, mapM_filled_map_some, List.mapM_cons, hcolumn]
  rfl

theorem exists_map_some_eq {α : Type} {column : List (Option α)} (h : none ∉ column) :
    column ∈ Set.range (List.map some) := by
  rw [Set.range_list_map]
  exact fun slot hslot => Option.ne_none_iff_exists.1 (ne_of_mem_of_not_mem hslot h)

/-- Either all slots have a value, or there is a first column with a gap. -/
theorem filled_or_gap {α : Type} (slots : List (List (Option α))) :
    (∃ columns : List (List α), slots = columns.map (·.map some)) ∨
      ∃ (front : List (List α)) (column : List (Option α)) (back : List (List (Option α))),
        none ∈ column ∧ slots = front.map (·.map some) ++ column :: back := by
  induction slots with
  | nil => exact .inl ⟨[], rfl⟩
  | cons column slots ih =>
      by_cases hgap : none ∈ column
      · exact .inr ⟨[], column, slots, hgap, rfl⟩
      · obtain ⟨values, rfl⟩ := exists_map_some_eq hgap
        rcases ih with ⟨columns, rfl⟩ | ⟨front, column, back, hgap, rfl⟩
        · exact .inl ⟨values :: columns, rfl⟩
        · exact .inr ⟨values :: front, column, back, hgap, rfl⟩

theorem assemble_filled (labels : RowSet) (names : List (Option String))
    (columns : List (List (GroupValue ω))) :
    assemble labels names (columns.map (·.map some)) =
      match names with
      | [none] => combine labels (columns.getLast?.getD [])
      | _ => .ok (.perGroup labels ((names.map (·.getD "")).zip columns)) := by
  rw [assemble, mapM_filled_map_some]
  rfl

theorem assemble_gap (labels : RowSet) (names : List (Option String))
    (front : List (List (GroupValue ω))) {column : List (Option (GroupValue ω))}
    (h : none ∈ column) (back : List (List (Option (GroupValue ω)))) :
    assemble labels names (front.map (·.map some) ++ column :: back) =
      .error (.groupCountMismatch labels.rows.length (column.countP Option.isSome)) := by
  rw [assemble, mapM_filled_gap _ _ h]
  rfl

theorem assemble_mismatch_iff (labels : RowSet) (names : List (Option String))
    (slots : List (List (Option (GroupValue ω)))) :
    (∃ expected found, assemble labels names slots = .error (.groupCountMismatch expected found)) ↔
      ∃ column ∈ slots, none ∈ column := by
  rcases filled_or_gap slots with ⟨columns, rfl⟩ | ⟨front, column, back, hgap, rfl⟩
  · have hshape : FailsWith (fun e => ∃ fault, e = .nonUniformShape fault)
        (assemble labels names (columns.map (·.map some))) := by
      rw [assemble_filled]
      split
      · exact (failsWith_combineRows (fun fault => ⟨fault, rfl⟩) _ _ _ _).bind fun _ => .ok _
      · exact .ok _
    constructor
    · rintro ⟨expected, found, herror⟩
      obtain ⟨fault, hfault⟩ := hshape _ herror
      cases hfault
    · rintro ⟨column, hcolumn, hgap⟩
      obtain ⟨values, _, rfl⟩ := List.mem_map.1 hcolumn
      simp at hgap
  · rw [assemble_gap labels names front hgap]
    exact ⟨fun _ => ⟨column, by simp, hgap⟩, fun _ => ⟨_, _, rfl⟩⟩

/-! ## Tables one below the other -/

/-- The values are these tables, and all of them have these columns. -/
structure AreTables (values : List (GroupValue ω)) (tables : List RowSet) (columns : List String) :
    Prop where
  values_eq : values = tables.map .table
  columns_eq : ∀ table ∈ tables, table.columns = columns

/-- The first of the values that is no table, or has other columns than the tables before it. -/
inductive FirstMisfit : List (GroupValue ω) → ShapeFault → Prop
  | notTable {front : List (GroupValue ω)} {tables : List RowSet} {columns : List String}
      (hfront : AreTables front tables columns) {value : GroupValue ω} (hvalue : value.kind ≠ .table)
      (back : List (GroupValue ω)) :
      FirstMisfit (front ++ value :: back) (.notTable tables.length value.kind)
  | otherColumns {front : List (GroupValue ω)} {tables : List RowSet} {columns : List String}
      (hfront : AreTables front tables columns) (hne : tables ≠ []) {table : RowSet}
      (hcolumns : table.columns ≠ columns) (back : List (GroupValue ω)) :
      FirstMisfit (front ++ .table table :: back)
        (.otherColumns tables.length table.columns columns)

theorem AreTables.concat {values : List (GroupValue ω)} {tables : List RowSet}
    {columns : List String} (h : AreTables values tables columns) {table : RowSet}
    (hcolumns : table.columns = columns) :
    AreTables (values ++ [.table table]) (tables ++ [table]) columns where
  values_eq := by simp [h.values_eq]
  columns_eq := by simpa [or_imp, forall_and] using ⟨h.columns_eq, hcolumns⟩

theorem areTables_or_firstMisfit (values : List (GroupValue ω)) :
    (∃ tables columns, AreTables values tables columns) ∨ ∃ fault, FirstMisfit values fault := by
  induction values using List.reverseRecOn with
  | nil => exact .inl ⟨[], [], rfl, by simp⟩
  | append_singleton values value ih =>
      rcases ih with ⟨tables, columns, h⟩ | ⟨fault, h⟩
      · cases value with
        | table table =>
            rcases tables.eq_nil_or_concat' with rfl | ⟨front, last, rfl⟩
            · exact .inl ⟨[table], table.columns, by simp [h.values_eq], by simp⟩
            · by_cases hcolumns : table.columns = columns
              · exact .inl ⟨_, columns, h.concat hcolumns⟩
              · exact .inr ⟨_, .otherColumns h (by simp) hcolumns []⟩
        | scalar | client => exact .inr ⟨_, .notTable h (by simp [GroupValue.kind]) []⟩
      · refine .inr ⟨fault, ?_⟩
        cases h with
        | notTable hfront hvalue back => simpa using FirstMisfit.notTable hfront hvalue (back ++ [value])
        | otherColumns hfront hne hcolumns back =>
            simpa using FirstMisfit.otherColumns hfront hne hcolumns (back ++ [value])

/-- The rows of the tables, each behind the label of its table. -/
def labelledRows (labels : List Row) (tables : List RowSet) : List Row :=
  (labels.zip tables).flatMap fun (label, table) => table.rows.map (label ++ ·)

/-- Tables in front do not matter for what comes behind them, apart from their columns. -/
theorem combineRows_append {front : List (GroupValue ω)} {tables : List RowSet}
    {columns : List String} (h : AreTables front tables columns) {seen : Option (List String)}
    (hseen : seen = none ∨ seen = some columns) {labels : List Row}
    (hlength : labels.length = tables.length) (index : Nat) (more : List Row)
    (back : List (GroupValue ω)) :
    combineRows index seen (labels ++ more) (front ++ back) =
      (combineRows (index + tables.length) (if tables = [] then seen else some columns) more
        back).map (Prod.map id (labelledRows labels tables ++ ·)) := by
  obtain ⟨rfl, hcolumns⟩ := h
  induction tables generalizing labels index seen with
  | nil =>
      rw [List.eq_nil_of_length_eq_zero hlength]
      rcases hrest : combineRows index seen more back with _ | ⟨_, _⟩ <;>
        simp [hrest, labelledRows, Except.map]
  | cons table tables ih =>
      obtain ⟨label, labels, rfl⟩ := List.exists_cons_of_length_eq_add_one hlength
      have htable : table.columns = columns := hcolumns table (by simp)
      have hfirst : combineRows index seen (label :: (labels ++ more))
          (.table table :: (tables.map .table ++ back)) =
            (combineRows (index + 1) (some columns) (labels ++ more)
              (tables.map .table ++ back)).map
                (Prod.map id (table.rows.map (label ++ ·) ++ ·)) := by
        rcases hseen with rfl | rfl <;> rw [combineRows] <;> simp only [htable, if_true] <;>
          cases combineRows (index + 1) (some columns) (labels ++ more)
            (tables.map .table ++ back) <;> rfl
      rw [List.map_cons, List.cons_append, List.cons_append, hfirst,
        ih (.inr rfl) (by simpa using hlength) (index + 1)
          fun other hother => hcolumns other (List.mem_cons_of_mem _ hother),
        List.length_cons, if_neg (List.cons_ne_nil _ _), ite_self, Nat.add_right_comm, Nat.add_assoc]
      rcases combineRows (index + (tables.length + 1)) (some columns) more back with _ | ⟨_, _⟩ <;>
        simp [Except.map, labelledRows]

/-- Tables that fit are combined, and the columns are known if there is one. -/
theorem combine_areTables {labels : RowSet} {values : List (GroupValue ω)} {tables : List RowSet}
    {columns : List String} (h : AreTables values tables columns)
    (hlength : values.length = labels.rows.length) :
    combine labels values = .ok (.combined
      { columns := labels.columns ++ if tables = [] then [] else columns
        rows := labelledRows labels.rows tables }) := by
  have htables : labels.rows.length = tables.length := by simp [← hlength, h.values_eq]
  have hrows := combineRows_append h (.inl rfl) htables 0 [] []
  rw [List.append_nil, List.append_nil] at hrows
  rw [combine, hrows]
  split_ifs <;> simp [combineRows, Except.map, bind, Except.bind, pure, Except.pure]

theorem exists_append_cons_of_length_eq {α β : Type} {labels : List α} {front : List β} {value : β}
    {back : List β} (h : (front ++ value :: back).length = labels.length) :
    ∃ before label after, labels = before ++ label :: after ∧ before.length = front.length := by
  have hlt : front.length < labels.length := by simp [← h]
  refine ⟨labels.take front.length, labels[front.length], labels.drop (front.length + 1), ?_, ?_⟩
  · rw [← List.drop_eq_getElem_cons hlt, List.take_append_drop]
  · simp [hlt.le]

theorem combine_firstMisfit {labels : RowSet} {values : List (GroupValue ω)} {fault : ShapeFault}
    (h : FirstMisfit values fault) (hlength : values.length = labels.rows.length) :
    combine labels values = .error (.nonUniformShape fault) := by
  have hfront {front : List (GroupValue ω)} {tables : List RowSet} {columns : List String}
      (hfront : AreTables front tables columns) {value : GroupValue ω} {back : List (GroupValue ω)}
      (hvalue : ∀ label after, combineRows tables.length (if tables = [] then none else some columns)
        (label :: after) (value :: back) = .error (.nonUniformShape fault))
      (hlength : (front ++ value :: back).length = labels.rows.length) :
      combine labels (front ++ value :: back) = .error (.nonUniformShape fault) := by
    obtain ⟨before, label, after, hrows, hbefore⟩ := exists_append_cons_of_length_eq hlength
    have htables : before.length = tables.length := by simp [hbefore, hfront.values_eq]
    rw [combine, hrows, combineRows_append hfront (.inl rfl) htables, Nat.zero_add, hvalue]
    rfl
  cases h with
  | notTable hbefore hvalue back =>
      refine hfront hbefore (fun label after => ?_) hlength
      cases ‹GroupValue ω› with
      | table => exact absurd rfl hvalue
      | scalar | client => simp [combineRows]
  | otherColumns hbefore hne hcolumns back =>
      refine hfront hbefore (fun label after => ?_) hlength
      rw [if_neg hne, combineRows, if_neg hcolumns.symm]

/-! ## Columns behind the labels -/

theorem appendColumn_scalars (name : String) {rows : List Row} {scalars : List Scalar}
    (hlength : scalars.length = rows.length) :
    appendColumn (ω := ω) name rows (scalars.map .scalar) =
      .ok (List.zipWith (fun row scalar => row ++ [scalar]) rows scalars) := by
  induction scalars generalizing rows with
  | nil => simp [appendColumn, List.eq_nil_of_length_eq_zero hlength.symm]
  | cons scalar scalars ih =>
      obtain ⟨row, rows, rfl⟩ := List.exists_cons_of_length_eq_add_one hlength.symm
      rw [List.map_cons, appendColumn, ih (by simpa using hlength)]
      rfl

theorem exists_scalars_of_appendColumn {name : String} {rows out : List Row}
    {values : List (GroupValue ω)} (hlength : values.length = rows.length)
    (h : appendColumn name rows values = .ok out) :
    ∃ scalars : List Scalar, values = scalars.map .scalar := by
  induction values generalizing rows out with
  | nil => exact ⟨[], rfl⟩
  | cons value values ih =>
      obtain ⟨row, rows, rfl⟩ := List.exists_cons_of_length_eq_add_one hlength.symm
      cases value with
      | scalar scalar =>
          rw [appendColumn] at h
          obtain ⟨rest, hrest, _⟩ := exists_of_bind_eq_ok h
          obtain ⟨scalars, rfl⟩ := ih (by simpa using hlength) hrest
          exact ⟨scalar :: scalars, rfl⟩
      | table | client => simp [appendColumn] at h

/-- Every label row gets the values of its group behind it. -/
theorem appendColumns_scalars (table : RowSet) {names : List String} {scalars : List (List Scalar)}
    (hnames : scalars.length = names.length)
    (hlength : ∀ column ∈ scalars, column.length = table.rows.length) :
    appendColumns (ω := ω) table (names.zip (scalars.map (·.map .scalar))) =
      .ok { columns := table.columns ++ names
            rows := table.rows.mapIdx fun i row => row ++ scalars.filterMap (·[i]?) } := by
  induction scalars generalizing table names with
  | nil =>
      have hrows : table.rows.mapIdx (fun _ row => row) = table.rows :=
        List.ext_getElem (by simp) (by simp)
      rw [List.eq_nil_of_length_eq_zero hnames.symm]
      simp [appendColumns, hrows]
  | cons column scalars ih =>
      obtain ⟨name, names, rfl⟩ := List.exists_cons_of_length_eq_add_one hnames.symm
      have hcolumn := hlength column (by simp)
      rw [List.map_cons, List.zip_cons_cons, appendColumns, appendColumn_scalars name hcolumn]
      have hrest := ih ⟨table.columns ++ [name],
        List.zipWith (fun row scalar => row ++ [scalar]) table.rows column⟩ (by simpa using hnames)
        fun other hother => by simp [hlength other (by simp [hother]), hcolumn]
      refine hrest.trans (congrArg Except.ok (congrArg₂ RowSet.mk (by simp) ?_))
      apply List.ext_getElem (by simp [hcolumn])
      intro i _ hi
      have hcell : i < column.length := by simpa [hcolumn] using hi
      simp [List.getElem?_eq_getElem hcell]

theorem exists_scalars_of_appendColumns {table out : RowSet} {names : List String}
    {columns : List (List (GroupValue ω))} (hnames : columns.length = names.length)
    (hlength : ∀ values ∈ columns, values.length = table.rows.length)
    (h : appendColumns table (names.zip columns) = .ok out) :
    ∃ scalars : List (List Scalar), columns = scalars.map (·.map .scalar) := by
  induction columns generalizing table names with
  | nil => exact ⟨[], rfl⟩
  | cons values columns ih =>
      obtain ⟨name, names, rfl⟩ := List.exists_cons_of_length_eq_add_one hnames.symm
      have hvalues := hlength values (by simp)
      rw [List.zip_cons_cons, appendColumns] at h
      obtain ⟨rows, hfirst, hrest⟩ := exists_of_bind_eq_ok h
      obtain ⟨scalars, rfl⟩ := exists_scalars_of_appendColumn hvalues hfirst
      rw [List.length_map] at hvalues
      have hrows := Except.ok.inj ((appendColumn_scalars name hvalues).symm.trans hfirst)
      obtain ⟨rest, rfl⟩ := ih (by simpa using hnames)
        (fun other hother => by simp [hlength other (by simp [hother]), ← hrows, hvalues]) hrest
      exact ⟨scalars :: rest, rfl⟩

theorem exists_scalars {columns : List (List (GroupValue ω))}
    (h : ∀ values ∈ columns, ∀ value ∈ values, ∃ scalar, value = .scalar scalar) :
    ∃ scalars : List (List Scalar), columns = scalars.map (·.map .scalar) := by
  have hcolumns : columns ∈ Set.range (List.map (List.map GroupValue.scalar)) := by
    rw [Set.range_list_map]
    intro values hvalues
    rw [Set.range_list_map]
    exact fun value hvalue => (h values hvalues value hvalue).imp fun _ => Eq.symm
  exact hcolumns.imp fun _ => Eq.symm

/-- Results are put together without loss: the only errors are a slot without a value, a value that
does not fit to those before it, and a value of a named computation that is no scalar. -/
theorem assemble_results (labels : RowSet) :
    (∀ (names : List (Option String)) (slots : List (List (Option (GroupValue ω)))),
      (∃ expected found, assemble labels names slots =
        .error (.groupCountMismatch expected found)) ↔ ∃ column ∈ slots, none ∈ column) ∧
    (∀ values : List (GroupValue ω), values.length = labels.rows.length →
      ((∃ output, assemble labels [none] [values.map some] = .ok output) ↔
        ∃ tables columns, AreTables values tables columns) ∧
      (∀ tables columns, AreTables values tables columns →
        assemble labels [none] [values.map some] = .ok (.combined
          { columns := labels.columns ++ if tables = [] then [] else columns
            rows := labelledRows labels.rows tables })) ∧
      ((¬ ∃ tables columns, AreTables values tables columns) → ∃ fault, FirstMisfit values fault) ∧
      ∀ fault, FirstMisfit values fault →
        assemble labels [none] [values.map some] = .error (.nonUniformShape fault)) ∧
    ∀ (names : List String) (columns : List (List (GroupValue ω))),
      columns.length = names.length → (∀ values ∈ columns, values.length = labels.rows.length) →
      ∃ output, assemble labels (names.map some) (columns.map (·.map some)) = .ok output ∧
        ((∃ table, output.flatten = .ok table) ↔
          ∀ values ∈ columns, ∀ value ∈ values, ∃ scalar, value = .scalar scalar) ∧
        ∀ scalars : List (List Scalar), columns = scalars.map (·.map .scalar) →
          output.flatten = .ok
            { columns := labels.columns ++ names
              rows := labels.rows.mapIdx fun i label => label ++ scalars.filterMap (·[i]?) } := by
  refine ⟨assemble_mismatch_iff labels, fun values hlength => ?_,
    fun names columns hnames hlength => ?_⟩
  · have hsingle : assemble labels [none] [values.map some] = combine labels values :=
      assemble_filled labels [none] [values]
    rw [hsingle]
    have hfit := areTables_or_firstMisfit values
    refine ⟨⟨?_, ?_⟩, fun tables columns h => combine_areTables h hlength, hfit.resolve_left,
      fun fault h => combine_firstMisfit h hlength⟩
    · rintro ⟨output, hok⟩
      refine hfit.resolve_right ?_
      rintro ⟨fault, h⟩
      rw [combine_firstMisfit h hlength] at hok
      cases hok
    · rintro ⟨tables, columns, h⟩
      exact ⟨_, combine_areTables h hlength⟩
  · have hnamed : assemble labels (names.map some) (columns.map (·.map some)) =
        .ok (.perGroup labels (names.zip columns)) := by
      rw [assemble_filled]
      split
      · obtain ⟨_, _, hnone⟩ := List.map_eq_singleton_iff.1 ‹names.map some = [none]›
        cases hnone
      · simp [Function.comp_def]
    have hscalars : ∀ scalars : List (List Scalar), columns = scalars.map (·.map .scalar) →
        flatten (.perGroup labels (names.zip columns)) = .ok
          { columns := labels.columns ++ names
            rows := labels.rows.mapIdx fun i label => label ++ scalars.filterMap (·[i]?) } := by
      rintro scalars rfl
      exact appendColumns_scalars labels (by simpa using hnames) fun column hcolumn => by
        simpa using hlength _ (List.mem_map_of_mem hcolumn)
    refine ⟨_, hnamed, ⟨?_, fun h => ?_⟩, hscalars⟩
    · rintro ⟨table, htable⟩ values hvalues value hvalue
      obtain ⟨scalars, rfl⟩ := exists_scalars_of_appendColumns hnames hlength htable
      obtain ⟨column, _, rfl⟩ := List.mem_map.1 hvalues
      obtain ⟨scalar, _, rfl⟩ := List.mem_map.1 hvalue
      exact ⟨scalar, rfl⟩
    · obtain ⟨scalars, rfl⟩ := exists_scalars h
      exact ⟨_, hscalars scalars rfl⟩

/-- Two tables under their labels, no groups at all, and two named scalars for a group. -/
theorem assemble_results_two :
    assemble (ω := Unit) ⟨["g"], [[.boolean false], [.boolean true]]⟩ [none]
        [[GroupValue.table ⟨["x"], [[.null], [.null]]⟩, .table ⟨["x"], []⟩].map some] =
      .ok (.combined ⟨["g", "x"], [[.boolean false, .null], [.boolean false, .null]]⟩) ∧
    assemble (ω := Unit) ⟨["g"], []⟩ [none] [([] : List (GroupValue Unit)).map some] =
      .ok (.combined ⟨["g"], []⟩) ∧
    ∃ output, assemble (ω := Unit) ⟨["g"], [[.boolean false]]⟩ [some "a", some "b"]
        [[some (.scalar .null)], [some (.scalar (.boolean true))]] = .ok output ∧
      output.flatten = .ok ⟨["g", "a", "b"], [[.boolean false, .null, .boolean true]]⟩ := by
  have htwo := (assemble_results (ω := Unit) ⟨["g"], [[.boolean false], [.boolean true]]⟩).2.1
    [.table ⟨["x"], [[.null], [.null]]⟩, .table ⟨["x"], []⟩] rfl
  have hnone := (assemble_results (ω := Unit) ⟨["g"], []⟩).2.1 [] rfl
  obtain ⟨output, houtput, _, htable⟩ := (assemble_results (ω := Unit)
    ⟨["g"], [[.boolean false]]⟩).2.2 ["a", "b"] [[.scalar .null], [.scalar (.boolean true)]] rfl
    (by simp)
  exact ⟨htwo.2.1 [⟨["x"], [[.null], [.null]]⟩, ⟨["x"], []⟩] ["x"] ⟨rfl, by simp⟩,
    hnone.2.1 [] [] ⟨rfl, by simp⟩, output, houtput, htable [[.null], [.boolean true]] rfl⟩

end Output

end SqlChain
