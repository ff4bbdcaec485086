import SqlChain.Proofs.Chain.Extraction
import SqlChain.Proofs.Meaning.Chain
import SqlChain.Proofs.Meaning.Windows

/-!
# Windows without windows

Every row matches the aggregates of its own group and no others, null keys being equal. So the level
that stands for all calls has the rows of the state, each of them once and in place, with a column
for every call (`read_emulateAll`).
-/

namespace SqlChain

namespace Reading

variable {ω : Type} {R : Reading ω}

/-! ## The groups of the right side -/

theorem find?_columns {groups : List String} {g : String} (h : g ∈ groups) :
    (groups.map Item.column).find? (·.name == g) = some (Item.column g) := by
  induction groups with
  | nil => cases h
  | cons first rest ih =>
      rw [List.map_cons, List.find?_cons]
      by_cases hfirst : first = g
      · simp [Item.column, hfirst]
      · have hname : ((Item.column first).name == g) = false := beq_false_of_ne hfirst
        rw [hname]
        exact ih (List.mem_of_ne_of_mem (Ne.symm hfirst) h)

/-- The row of a group on the right side. -/
def groupRow (R : Reading ω) (groups : List String) (aggregates : List Item) (rows group : List Env) :
    Env :=
  cell ((groups.map Item.column ++ aggregates).map (·.name))
    ((groups.map Item.column ++ aggregates).map
      (R.itemValue rows (rows.map fun row _ => row) (group.map fun row _ => row)))

theorem envs_groups (t : RowSet) (columns groups : List String) (aggregates : List Item) :
    (R.readBody ((Body.identity columns).summary groups aggregates) t.envs
      (t.envs.map fun row _ => row)).envs =
        (groupsOf groups id t.envs).map (R.groupRow groups aggregates t.envs) := by
  have hgroups : rowGroups ((Body.identity columns).summary groups aggregates)
      (t.envs.map fun row _ => row) = (groupsOf groups id t.envs).map (List.map fun row _ => row) :=
    rowGroups_map _ _ _
  rw [R.readBody_of_filters rfl, hgroups, RowSet.envs, List.map_map, List.map_map]
  rfl

section

variable {groups : List String} {aggregates : List Item} {rows group : List Env}

theorem groupRow_group {g : String} (h : g ∈ groups) :
    R.groupRow groups aggregates rows group g = groupCell group g := by
  rw [groupRow, cell_map, List.find?_append, find?_columns h]
  exact congrArg (groupCell · g) (map_unsided none group)

theorem groupRow_aggregate {item : Item} (h : item ∈ aggregates)
    (hnodup : (aggregates.map (·.name)).Nodup) (hgroups : item.name ∉ groups) :
    R.groupRow groups aggregates rows group item.name =
      R.itemValue rows (rows.map fun row _ => row) (group.map fun row _ => row) item := by
  have hnone : (groups.map Item.column).find? (·.name == item.name) = none := by
    rw [List.find?_eq_none]
    intro other hother
    obtain ⟨g, hg, rfl⟩ := List.mem_map.1 hother
    have hne : g ≠ item.name := fun heq => hgroups (heq ▸ hg)
    simpa [Item.column] using hne
  rw [groupRow, cell_map, List.find?_append, hnone, find?_key_eq Item.name hnodup h]
  rfl

end

/-! ## The join -/

theorem joins_iff (on : Matching) (row other : Env) :
    R.joins on row other = true ↔ ∀ g ∈ on.groups, (row g).keyEqual (other g) = true := by
  rw [joins, Semantics.passes_iff, Matching.conditions, List.forall_mem_map]
  exact forall₂_congr fun g _ => R.truth_sameGroup _ _ _ _ g

/-- A row matches the row of its own group and no other. -/
theorem filter_joins (on : Matching) (aggregates : List Item) {rows : List Env} {row : Env}
    (h : row ∈ rows) :
    ((groupsOf on.groups id rows).map (R.groupRow on.groups aggregates rows)).filter
        (R.joins on row) =
      [R.groupRow on.groups aggregates rows (peers on.groups rows row)] := by
  have hcondition : (fun group => R.joins on row (R.groupRow on.groups aggregates rows group)) =
      fun group => on.groups.all fun g => (row g).keyEqual (groupCell group g) := by
    funext group
    rw [Bool.eq_iff_iff, joins_iff, List.all_eq_true]
    refine forall₂_congr fun g hg => ?_
    rw [groupRow_group hg]
  rw [List.filter_map, Function.comp_def, hcondition, filter_groupsOf h]
  rfl

theorem joined_eq {on : Matching} {left right : List Env} {f : Env → Env}
    (h : ∀ row ∈ left, right.filter (R.joins on row) = [f row]) :
    R.joined on left right = left.map fun row => sided row (f row) := by
  induction left with
  | nil => rfl
  | cons row rest ih =>
      have hrest := ih fun other hother => h other (List.mem_cons_of_mem _ hother)
      rw [joined, List.flatMap_cons, h row List.mem_cons_self, List.map_cons]
      exact congrArg _ hrest

/-! ## The level for all calls -/

/-- The calls in the order in which their columns stand. -/
def aggregatesFirst (R : Reading ω) (calls : List ExtractedCall) : List ExtractedCall :=
  calls.filter R.aggregates ++ calls.filter (!R.aggregates ·)

/-- Rows with a column for every call. -/
def withCalls (R : Reading ω) (value : ExtractedCall → Env → Scalar) (calls : List ExtractedCall)
    (t : RowSet) : RowSet where
  columns := t.columns ++ (R.aggregatesFirst calls).map (·.temporary)
  rows := t.rows.map fun row =>
    row ++ (R.aggregatesFirst calls).map fun x => value x (cell t.columns row)

/-- Rows with a column for every call that is evaluated over the group of the row. -/
def withWindows (R : Reading ω) (groups : List String) (calls : List ExtractedCall) (t : RowSet) :
    RowSet where
  columns := t.columns ++ (R.aggregatesFirst calls).map (·.temporary)
  rows := t.rows.map fun row => row ++ (R.aggregatesFirst calls).map fun x =>
    R.windowValue groups x t.envs (cell t.columns row)

theorem perm_aggregatesFirst (calls : List ExtractedCall) :
    (R.aggregatesFirst calls).Perm calls :=
  List.filter_append_perm _ calls

section

variable {c : Compiler} {source : String} {groups : List String} {calls : List ExtractedCall}
  {emulated : List Compiler.Emulated}

theorem forall₂_aggregates (hfunctions : c.functions = R.functions)
    (h : List.Forall₂ (Emulates c source groups) calls emulated) :
    List.Forall₂ (fun x item => Emulates c source groups x (.aggregate item))
      (calls.filter R.aggregates)
      (emulated.filterMap Compiler.Emulated.aggregate?) := by
  induction h with
  | nil => exact .nil
  | @cons x e _ _ hx _ ih =>
      cases e with
      | aggregate item =>
          rw [List.filter_cons_of_pos (aggregates_of_aggregate hfunctions hx)]
          exact .cons hx ih
      | rank item =>
          rw [List.filter_cons_of_neg (by simp [not_aggregates_of_rank hfunctions hx])]
          exact ih

theorem forall₂_ranks (hfunctions : c.functions = R.functions)
    (h : List.Forall₂ (Emulates c source groups) calls emulated) :
    List.Forall₂ (fun x item => Emulates c source groups x (.rank item))
      (calls.filter (!R.aggregates ·))
      (emulated.filterMap Compiler.Emulated.rank?) := by
  induction h with
  | nil => exact .nil
  | @cons x e _ _ hx _ ih =>
      cases e with
      | aggregate item =>
          rw [List.filter_cons_of_neg (by simp [aggregates_of_aggregate hfunctions hx])]
          exact ih
      | rank item =>
          rw [List.filter_cons_of_pos (by simp [not_aggregates_of_rank hfunctions hx])]
          exact .cons hx ih

theorem names_of_emulates {kind : Item → Compiler.Emulated} (hkind : kind = .aggregate ∨ kind = .rank)
    {items : List Item}
    (h : List.Forall₂ (fun x item => Emulates c source groups x (kind item)) calls items) :
    items.map (·.name) = calls.map (·.temporary) := by
  refine (map_eq_of_forall₂ h fun x item hx => ?_).symm
  rcases hkind with rfl | rfl <;> cases hx <;> rfl

end

/-- Items behind the columns of the left side extend its rows. -/
theorem readBody_extended {t : RowSet} (hnodup : t.columns.Nodup)
    (hlength : ∀ row ∈ t.rows, row.length = t.columns.length) {items : List Item}
    {added : List ExtractedCall} {right : Env → Env} {value : ExtractedCall → Env → Scalar}
    (hnames : items.map (·.name) = added.map (·.temporary))
    (hvalues : ∀ kept, ∀ row ∈ t.envs,
      items.map (R.itemValue t.envs kept [sided row (right row)]) = added.map (value · row)) :
    R.readBody { Body.identity t.columns with items := t.columns.map (Item.ofSide .left) ++ items }
        t.envs (t.envs.map fun row => sided row (right row)) =
      { columns := t.columns ++ added.map (·.temporary)
        rows := t.rows.map fun row => row ++ added.map (value · (cell t.columns row)) } := by
  have hcolumns : (t.columns.map (Item.ofSide .left) ++ items).map (·.name) =
      t.columns ++ added.map (·.temporary) := by
    rw [List.map_append, hnames, List.map_map]
    exact congrArg (· ++ added.map (·.temporary)) (List.map_id t.columns)
  have hgroups : rowGroups
      { Body.identity t.columns with items := t.columns.map (Item.ofSide .left) ++ items }
        (t.envs.map fun row => sided row (right row)) =
      t.envs.map fun row => [sided row (right row)] := by
    rw [rowGroups, if_neg (by exact Bool.false_ne_true), List.map_map]
    rfl
  rw [R.readBody_of_filters rfl, Body.outputs, hcolumns, hgroups, RowSet.envs, List.map_map,
    List.map_map]
  congr 1
  refine List.map_congr_left fun row hrow => ?_
  have hown := map_cell hnodup (hlength row hrow)
  have hextra := hvalues (t.envs.map fun row => sided row (right row)) (cell t.columns row)
    (List.mem_map_of_mem hrow)
  rw [← hextra]
  refine Eq.trans ?_ (congrArg (· ++ _) hown)
  rw [Function.comp_apply, Function.comp_apply, List.map_append, List.map_map]
  rfl

/-- The columns of the right side are the aggregates over the group of a row. -/
theorem map_groupRow {c : Compiler} {source : String} {groups : List String}
    {aggregated : List ExtractedCall} {aggregates : List Item} {rows : List Env}
    (hfunctions : c.functions = R.functions)
    (h : List.Forall₂ (fun x item => Emulates c source groups x (.aggregate item)) aggregated
      aggregates)
    (hnodup : (aggregated.map (·.temporary)).Nodup)
    (hgroups : ∀ x ∈ aggregated, x.temporary ∉ groups) (row : Env) :
    (aggregates.map fun item => R.groupRow groups aggregates rows (peers groups rows row) item.name) =
      aggregated.map fun x => R.windowValue groups x rows row := by
  have hnames := names_of_emulates (.inl rfl) h
  rw [← hnames] at hnodup
  have hown : ∀ item ∈ aggregates,
      R.groupRow groups aggregates rows (peers groups rows row) item.name =
        R.itemValue rows (rows.map fun row _ => row)
          ((peers groups rows row).map fun row _ => row) item := by
    intro item hitem
    obtain ⟨x, hx, hname⟩ := List.mem_map.1 (hnames ▸ List.mem_map_of_mem hitem)
    exact groupRow_aggregate hitem hnodup (hname ▸ hgroups x hx)
  rw [List.map_congr_left hown]
  exact (map_eq_of_forall₂ h fun x item hx => (itemValue_of_aggregate hfunctions hx _ _).symm).symm

/-- What is read where a rank stands for a call. It needs nothing of the right side. -/
def RanksAs (R : Reading ω) (c : Compiler) (groups : List String) (rows : List Env)
    (value : ExtractedCall → Env → Scalar) (x : ExtractedCall) : Prop :=
  ∀ source item, Emulates c source groups x (.rank item) → ∀ row ∈ rows, ∀ kept right,
    R.itemValue rows kept [sided row right] item = value x row

theorem map_ranks {c : Compiler} {source : String} {groups : List String}
    {ranked : List ExtractedCall} {items : List Item} {rows : List Env} {row : Env}
    {value : ExtractedCall → Env → Scalar}
    (h : List.Forall₂ (fun x item => Emulates c source groups x (.rank item)) ranked items)
    (hvalue : ∀ x ∈ ranked, R.RanksAs c groups rows value x) (hrow : row ∈ rows)
    (kept : List SidedRow) (right : Env) :
    items.map (R.itemValue rows kept [sided row right]) = ranked.map (value · row) := by
  induction h with
  | nil => rfl
  | cons hx _ ih =>
      obtain ⟨hfirst, hrest⟩ := List.forall_mem_cons.1 hvalue
      rw [List.map_cons, List.map_cons, hfirst _ _ hx row hrow, ih hrest]

theorem sided_self (row : Env) : sided row row = fun _ => row := by
  funext side
  cases side with
  | none => rfl
  | some side => cases side <;> rfl

section

variable {c : Compiler} {source : String} {groups : List String} {calls : List ExtractedCall}
  {emulated : List Compiler.Emulated} {t : RowSet} {value : ExtractedCall → Env → Scalar}

/-- The level for calls all of which are ranks. -/
theorem readBody_ranks (hfunctions : c.functions = R.functions)
    (hemulated : List.Forall₂ (Emulates c source groups) calls emulated)
    (hnone : emulated.filterMap Compiler.Emulated.aggregate? = []) (hnodup : t.columns.Nodup)
    (hlength : ∀ row ∈ t.rows, row.length = t.columns.length)
    (hvalue : ∀ x ∈ calls, R.RanksAs c groups t.envs value x) :
    R.readBody
        { Body.identity t.columns with
          items := t.columns.map (Item.ofSide .left) ++
            emulated.filterMap Compiler.Emulated.rank? }
        t.envs (t.envs.map fun row _ => row) = R.withCalls value calls t := by
  have haggregates := forall₂_aggregates hfunctions hemulated
  have hranks := forall₂_ranks hfunctions hemulated
  rw [hnone, List.forall₂_nil_right_iff] at haggregates
  have hall : R.aggregatesFirst calls = calls.filter (!R.aggregates ·) := by
    rw [aggregatesFirst, haggregates, List.nil_append]
  have hrows : (t.envs.map fun row (_ : Option Side) => row) = t.envs.map fun row => sided row row :=
    List.map_congr_left fun row _ => (sided_self row).symm
  rw [withCalls, hrows, hall]
  refine readBody_extended hnodup hlength (names_of_emulates (.inr rfl) hranks) ?_
  intro kept row hrow
  exact map_ranks hranks (fun x hx => hvalue x (List.mem_filter.1 hx).1) hrow kept row

/-- The level for calls of all kinds. -/
theorem readBody_joined {on : Matching} (hfunctions : c.functions = R.functions)
    (hemulated : List.Forall₂ (Emulates c source groups) calls emulated)
    (hon : c.matching groups = .ok on) (hnodup : t.columns.Nodup)
    (hlength : ∀ row ∈ t.rows, row.length = t.columns.length)
    (htemporaries : (calls.map (·.temporary)).Nodup) (hgroups : ∀ x ∈ calls, x.temporary ∉ groups)
    (haggregates : ∀ x ∈ calls, R.aggregates x = true → ∀ row,
      R.windowValue groups x t.envs row = value x row)
    (hvalue : ∀ x ∈ calls, R.RanksAs c groups t.envs value x) :
    R.readBody
        { Body.identity t.columns with
          items := t.columns.map (Item.ofSide .left) ++
            (emulated.filterMap Compiler.Emulated.aggregate?).map
              (fun item => Item.ofSide .right item.name) ++
            emulated.filterMap Compiler.Emulated.rank? }
        t.envs
        (R.joined on t.envs (R.readBody ((Body.identity t.columns).summary groups
          (emulated.filterMap Compiler.Emulated.aggregate?)) t.envs
            (t.envs.map fun row _ => row)).envs) = R.withCalls value calls t := by
  have hfirst := forall₂_aggregates hfunctions hemulated
  have hranks := forall₂_ranks hfunctions hemulated
  have hrow : ∀ row ∈ t.envs, ((R.readBody ((Body.identity t.columns).summary groups
      (emulated.filterMap Compiler.Emulated.aggregate?)) t.envs
        (t.envs.map fun row _ => row)).envs).filter (R.joins on row) =
      [R.groupRow groups (emulated.filterMap Compiler.Emulated.aggregate?) t.envs
        (peers groups t.envs row)] := by
    intro row hrow
    rw [envs_groups, ← Compiler.groups_of_matching hon]
    exact filter_joins on _ hrow
  have hnames : ((emulated.filterMap Compiler.Emulated.aggregate?).map
      (fun item => Item.ofSide .right item.name) ++
        emulated.filterMap Compiler.Emulated.rank?).map (·.name) =
          (R.aggregatesFirst calls).map (·.temporary) := by
    rw [List.map_append, List.map_map, names_of_emulates (.inr rfl) hranks, aggregatesFirst,
      List.map_append, ← names_of_emulates (.inl rfl) hfirst]
    rfl
  rw [joined_eq hrow, List.append_assoc]
  refine readBody_extended hnodup hlength hnames ?_
  intro kept row hrow
  rw [List.map_append, List.map_map, aggregatesFirst, List.map_append]
  refine congrArg₂ _ ?_ ?_
  · refine (map_groupRow hfunctions hfirst ?_ ?_ row).trans ?_
    · exact htemporaries.sublist (List.filter_sublist.map _)
    · exact fun x hx => hgroups x (List.mem_filter.1 hx).1
    · refine List.map_congr_left fun x hx => ?_
      exact haggregates x (List.mem_filter.1 hx).1 (List.mem_filter.1 hx).2 row
  · exact map_ranks hranks (fun x hx => hvalue x (List.mem_filter.1 hx).1) hrow kept _

end

/-- The level for all calls has the rows of the state, each with the windows of its group. -/
theorem read_emulation {c : Compiler} {s s' : State} {calls : List ExtractedCall}
    (hfunctions : c.functions = R.functions) (h : IsEmulation c s calls s') (hnodup : s.columns.Nodup)
    (hgroups : ∀ g ∈ s.groups, g ∈ s.columns) (htemporaries : (calls.map (·.temporary)).Nodup)
    (hfresh : ∀ x ∈ calls, x.temporary ∉ s.columns)
    (hkeys : ∀ x ∈ calls, R.RanksValues x (R.read s.level).envs) :
    R.read s'.level = R.withWindows s.groups calls (R.read s.level) := by
  have hcolumns : s.columns = (R.read s.level).columns := (R.columns_read s.level).symm
  have hlength : ∀ row ∈ (R.read s.level).rows, row.length = (R.read s.level).columns.length := by
    rw [R.columns_read]
    exact fun row => R.length_of_mem_read
  have hranks : ∀ x ∈ calls, R.RanksAs c s.groups (R.read s.level).envs
      (fun x => R.windowValue s.groups x (R.read s.level).envs) x := by
    intro x hx source item hitem row hrow kept right
    exact itemValue_of_rank hfunctions hitem (hkeys x hx) hrow kept right
  have houter : ∀ x ∈ calls, x.temporary ∉ s.groups :=
    fun x hx hgroup => hfresh x hx (hgroups x.temporary hgroup)
  rw [hcolumns] at hnodup
  cases h with
  | ranks _ hemulated hnone =>
      rw [read, hcolumns]
      exact readBody_ranks hfunctions hemulated hnone hnodup hlength hranks
  | joined _ hemulated hon =>
      rw [read, read, hcolumns]
      exact readBody_joined hfunctions hemulated hon hnodup hlength htemporaries houter
        (fun _ _ _ _ => rfl) hranks

/-- Calls that were taken out of an expression, each an aggregate or a rank by values, come to columns
that hold them over the group of every row, one for each. The rows are those of the state, in place,
and every text that is new is written for what is read. -/
theorem read_emulateAll (R : Reading ω) (dialect : Dialect) (config : Config) {s s' : State}
    (hgroups : ∀ g ∈ s.groups, g ∈ s.columns) (hnodup : s.columns.Nodup)
    (hfresh : ∀ n, temporaryName n ∉ s.columns)
    {p : String → Nat → Bool → Bool} {e : Expr} {issued : Nat} {calls : List ExtractedCall}
    (hcalls : calls.Sublist ((e.extract p).run { issued, calls := [] }).2.calls)
    (hkeys : ∀ x ∈ calls, R.RanksValues x (R.read s.level).envs) {progress later : Progress}
    (hrun : (Compiler.emulateAll { dialect, config, functions := R.functions } s calls).run progress =
      .ok (s', later)) :
    R.read s'.level = R.withWindows s.groups calls (R.read s.level) ∧
      (R.aggregatesFirst calls).Perm calls ∧
      s'.groups = s.groups ∧ s'.order = s.order ∧
      ∀ inner ∈ s'.level.nest, inner ∈ s.level.nest ∨
        inner.IsWritten { dialect, config, functions := R.functions } := by
  obtain ⟨htemporaries, hnames⟩ := Expr.temporaries_extract p e issued
  obtain ⟨hemulation, _⟩ := BuildM.ensuresAfter_emulateAll s calls progress s' later rfl hrun
  have hnew : ∀ x ∈ calls, x.temporary ∉ s.columns := by
    intro x hx
    obtain ⟨n, hn⟩ := hnames x (hcalls.subset hx)
    exact hn ▸ hfresh n
  refine ⟨?_, perm_aggregatesFirst calls, ?_, ?_, fun inner hinner => ?_⟩
  · exact read_emulation rfl hemulation hnodup hgroups (htemporaries.sublist (hcalls.map _)) hnew
      hkeys
  · cases hemulation <;> rfl
  · cases hemulation <;> rfl
  · exact (hemulation.isSpelled inner hinner).imp_right Level.IsSpelled.isWritten

/-- Null keys, ties and all kinds of calls, the ranks in front. -/
theorem read_emulateAll_ties :
    let rows := [[.null, .int64 2], [.utf8 "a", .int64 5], [.null, .int64 7], [.null, .int64 2],
      [.utf8 "a", .int64 5]]
    let M := Semantics.integers (rows.map (cell ["g", "x"]))
    let R : Reading Scalar :=
      { M with
        aggregate
          | "n_distinct", values =>
            .int64 (.ofNat
              (distinctValues ((values.flatten.map (·.value)).filter (!·.isNull))).length)
          | function, values => M.aggregate function values
        order := .standard
        overWindow := fun _ _ _ _ => .null }
    let s : State :=
      { State.ofSource { schema := none, name := "t", columns := ["g", "x"] } with groups := ["g"] }
    let e : Expr := .inList
      (.binary .add (.plainCall "rank" [.plainCall "desc" [.column "x"]]) (.plainCall "n" []))
      [.plainCall "dense_rank" [.column "x"], .plainCall "sum" [.column "x"],
        .plainCall "n_distinct" [.column "x"]]
    let calls := ((e.extract (Compiler.builtin .mysql57 .default).isWindowCall).run
      { issued := 0, calls := [] }).2.calls
    ∃ s' later,
      (Compiler.emulateAll (.builtin .mysql57 .default) s calls).run .start = .ok (s', later) ∧
      R.read s'.level =
        { columns := ["g", "x", "win02", "win04", "win05", "win01", "win03"]
          rows := [
            [.null, .int64 2, .int64 3, .int64 11, .int64 2, .int64 2, .int64 1],
            [.utf8 "a", .int64 5, .int64 2, .int64 10, .int64 1, .int64 1, .int64 1],
            [.null, .int64 7, .int64 3, .int64 11, .int64 2, .int64 1, .int64 2],
            [.null, .int64 2, .int64 3, .int64 11, .int64 2, .int64 2, .int64 1],
            [.utf8 "a", .int64 5, .int64 2, .int64 10, .int64 1, .int64 1, .int64 1]] } := by
  intro rows M R s e calls
  have hwindows : R.withWindows s.groups calls (R.read s.level) =
      { columns := ["g", "x", "win02", "win04", "win05", "win01", "win03"]
        rows := [
          [.null, .int64 2, .int64 3, .int64 11, .int64 2, .int64 2, .int64 1],
          [.utf8 "a", .int64 5, .int64 2, .int64 10, .int64 1, .int64 1, .int64 1],
          [.null, .int64 7, .int64 3, .int64 11, .int64 2, .int64 1, .int64 2],
          [.null, .int64 2, .int64 3, .int64 11, .int64 2, .int64 2, .int64 1],
          [.utf8 "a", .int64 5, .int64 2, .int64 10, .int64 1, .int64 1, .int64 1]] } := by
    decide +kernel
  have hkeys : ∀ x ∈ calls, R.RanksValues x (R.read s.level).envs := by
    have hvalues : ∀ x ∈ calls, ∀ key ∈ x.args.head?, ∀ row ∈ (R.read s.level).envs,
        (R.value (key.value.descending?.getD key.value) [row]).isNull = false := by
      decide +kernel
    intro x hx sql key rest _ hargs
    exact hvalues x hx key (by rw [hargs]; rfl)
  have hfresh : ∀ n, temporaryName n ∉ s.columns := by
    intro n hn
    have hlist : ∀ column ∈ s.columns, column.toList.length = 1 := by decide
    have hlength := hlist _ hn
    simp [temporaryName] at hlength
  obtain ⟨⟨s', later⟩, hrun⟩ := exists_of_isOk
    (r := (Compiler.emulateAll (.builtin .mysql57 .default) s calls).run .start) (by decide +kernel)
  obtain ⟨hread, -⟩ := read_emulateAll R .mysql57 .default (by decide) (by decide) hfresh
    (List.Sublist.refl _) hkeys hrun
  exact ⟨s', later, hrun, hread.trans hwindows⟩

end Reading

end SqlChain
