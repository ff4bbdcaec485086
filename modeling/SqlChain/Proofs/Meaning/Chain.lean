import SqlChain.Proofs.Meaning.Level

/-!
# What a built chain denotes

Every operation of a chain is followed in the level that is built and in the rows that it stands
for. A level is wrapped whenever its clauses could not be read in the order of the operations.
-/

namespace SqlChain

/-! ## Checks -/

theorem State.mem_of_checkNames {s : State} {names : List String}
    (h : s.checkNames names = .ok ()) : ∀ n ∈ names, n ∈ s.columns := by
  rw [checkNames] at h
  split at h
  · cases h
  · next hfind =>
      intro n hn
      simpa using List.find?_eq_none.1 hfind n hn

theorem State.checkNames_of_mem {s : State} {names : List String}
    (h : ∀ n ∈ names, n ∈ s.columns) : s.checkNames names = .ok () := by
  have hnone : names.find? (fun name => !s.columns.contains name) = none := by
    rw [List.find?_eq_none]
    simpa using h
  rw [checkNames, hnone]

theorem Compiler.mem_of_checkAssignments {s : State} {assignments : List (String × Expr)}
    (h : checkAssignments s assignments = .ok ()) :
    ∀ a ∈ assignments, ∀ n ∈ a.2.columns, n ∈ s.columns := by
  induction assignments with
  | nil => simp
  | cons a rest ih =>
      obtain ⟨⟨⟩, hfirst, h⟩ := exists_of_bind_eq_ok h
      split at h
      · cases h
      · intro b hb
        rcases List.mem_cons.1 hb with rfl | hb
        · exact State.mem_of_checkNames hfirst
        · exact ih h b hb

/-- Whether the operation evaluates nothing over a window. The aggregates of a summary are evaluated
over its groups. -/
def Op.isWindowFree (c : Compiler) : Op → Bool
  | .filter predicates => predicates.all fun e => !c.needsWindow e
  | .mutate assignments => assignments.all fun a => !c.needsWindow a.2
  | _ => true

namespace Semantics

variable {ω : Type} {M : Semantics ω} {c : Compiler} {s : State} {r : Relation}

/-- The level of a state is read as the rows of a relation that is grouped by the same columns. -/
structure Denotes (M : Semantics ω) (c : Compiler) (s : State) (r : Relation) : Prop where
  compiled : s.level.IsCompiled c
  level : M.readLevel s.level = some r.toRowSet
  groups : s.groups = r.groups
  grouping : ∀ g ∈ r.groups, g ∈ r.columns

theorem Denotes.exists_source (h : M.Denotes c s r) :
    ∃ source, M.readFrom s.level = some source ∧ r.toRowSet = M.readBody s.level.body source :=
  M.exists_of_readLevel h.level

theorem Denotes.outputs (h : M.Denotes c s r) : s.level.body.outputs = r.columns := by
  obtain ⟨source, _, hr⟩ := h.exists_source
  rw [hr]
  rfl

theorem Denotes.mem_columns (h : M.Denotes c s r) {names : List String}
    (hnames : ∀ n ∈ names, n ∈ s.columns) : ∀ n ∈ names, n ∈ r.columns := by
  rw [← h.outputs]
  exact hnames

/-! ## Wrapping -/

/-- A level that was wrapped denotes the same rows, and all its columns can be referred to. -/
theorem ensures_wrapIf (h : M.Denotes c s r) (hnodup : r.columns.Nodup) {condition : Bool}
    {names : List String} (hnames : ∀ n ∈ names, n ∈ r.columns)
    (hcondition : condition = false →
      s.level.body.aggregated = false ∧ s.level.body.canReference names = true) :
    (s.wrapIf condition).Ensures fun s => M.Denotes c s r ∧
      s.level.body.aggregated = false ∧ s.level.body.canReference names = true := by
  rw [State.wrapIf]
  split
  · refine BuildM.Ensures.bind (.trivial _) fun name _ => .pure ?_
    have hcompiled : (s.level.wrap name).IsCompiled c :=
      ⟨h.compiled, Body.isCompiled_identity s.level.outputs⟩
    refine ⟨⟨hcompiled, M.readLevel_wrap h.level hnodup name, h.groups, h.grouping⟩, rfl, ?_⟩
    refine Body.canReference_identity fun n hn => ?_
    rw [Level.outputs, h.outputs]
    exact hnames n hn
  · next hfalse => exact .pure ⟨h, hcondition (by simpa using hfalse)⟩

/-! ## Operations -/

theorem ensures_filterRows (h : M.Denotes c s r) (hnodup : r.columns.Nodup) {e : Expr}
    (he : ∀ n ∈ e.columns, n ∈ r.columns) :
    (c.filterRows s e).Ensures fun s => M.Denotes c s (M.filterRows r e) := by
  refine (ensures_wrapIf h hnodup he ?_).bind fun s ⟨hs, haggregated, href⟩ => ?_
  · intro hcondition
    simp only [Bool.or_eq_false_iff, Bool.not_eq_false'] at hcondition
    exact ⟨hcondition.1.1.1, hcondition.2⟩
  · refine (ensures_compiling c e).bind fun sql hsql => .pure ?_
    obtain ⟨source, hsource, hr⟩ := hs.exists_source
    refine ⟨hs.compiled.withBody (hs.compiled.body.filter hsql), ?_, hs.groups, hs.grouping⟩
    exact M.readLevel_withBody hsource (M.readBody_filter haggregated href hr) rfl

theorem ensures_assign (h : M.Denotes c s r) (hnodup : r.columns.Nodup) (name : String) {e : Expr}
    (he : ∀ n ∈ e.columns, n ∈ r.columns) :
    (c.assign s false name e).Ensures fun s => M.Denotes c s (M.assign r name e) := by
  refine (ensures_wrapIf h hnodup he ?_).bind fun s ⟨hs, haggregated, href⟩ => ?_
  · intro hcondition
    simp only [Bool.or_eq_false_iff, Bool.not_eq_false'] at hcondition
    refine ⟨hcondition.1.1, ?_⟩
    simpa using hcondition.2
  · refine (ensures_compiling c e).bind fun sql hsql => .pure ?_
    obtain ⟨source, hsource, hr⟩ := hs.exists_source
    have hsetItem := M.readBody_setItem haggregated (hs.outputs ▸ hnodup)
      { name, value := .computed { expr := e, window := none, sql } } rfl href hr
    -- the level also records a window, which takes part neither in its texts nor in its rows
    have hbody := hs.compiled.body.setItem name hsql
    refine ⟨?_, ?_, hs.groups, fun g hg => ?_⟩
    · exact hs.compiled.withBody ⟨hbody.items, hbody.filters⟩
    · exact M.readLevel_withBody hsource hsetItem rfl
    · exact mem_withName (hs.grouping g hg) name

theorem Denotes.project (h : M.Denotes c s r) {idents : List Ident}
    (hidents : ∀ i ∈ idents, i.name ∈ r.columns)
    (hgroups : ∀ g ∈ r.groups, ∃ i ∈ idents, i.name = g) :
    M.Denotes c (s.project idents) (r.project idents) := by
  obtain ⟨source, hsource, hr⟩ := h.exists_source
  refine ⟨h.compiled.withBody (h.compiled.body.selected idents), ?_, ?_, ?_⟩
  · exact M.readLevel_withBody hsource (M.readBody_selected (h.outputs ▸ hidents) hr) rfl
  · rw [State.project, Relation.project, h.groups]
    exact List.map_congr_left fun g _ => Relation.renamed_renames idents g
  · intro g hg
    obtain ⟨group, hgroup, rfl⟩ := List.mem_map.1 hg
    exact Relation.followed_mem (hgroups group hgroup)

theorem ensures_select (h : M.Denotes c s r) (idents : List Ident) :
    (s.select idents).Ensures fun s => M.Denotes c s (r.select idents) := by
  refine BuildM.Ensures.bind (.lift fun _ hcheck => hcheck) fun _ hcheck => ?_
  refine BuildM.Ensures.bind (.trivial _) fun _ _ => .pure ?_
  have hidents := h.mem_columns (State.mem_of_checkNames hcheck)
  have hwith : s.withGroups idents = r.withGroups idents := by
    rw [State.withGroups, Relation.withGroups, h.groups]
  rw [hwith]
  refine h.project ?_ (r.exists_withGroups idents)
  intro i hi
  rcases r.mem_withGroups hi with hi | hi
  · exact h.grouping i.name hi
  · exact hidents i.name (List.mem_map_of_mem hi)

theorem ensures_rename (h : M.Denotes c s r) (hnodup : r.columns.Nodup)
    (pairs : List (String × String)) :
    (Compiler.rename s pairs).Ensures fun s => M.Denotes c s (r.rename pairs) := by
  refine BuildM.Ensures.bind (.trivial _) fun _ _ => ?_
  dsimp only
  split
  · exact .throw _
  · have hrename := r.select_renamedIdents hnodup (M.length_of_readLevel h.level) h.grouping pairs
    rw [← hrename]
    have hcolumns : s.columns = r.columns := h.outputs
    rw [hcolumns]
    exact ensures_select h _

theorem ensures_summarise (h : M.Denotes c s r) (hnodup : r.columns.Nodup)
    (assignments : List (String × Expr)) :
    (c.summarise s assignments).Ensures fun s => M.Denotes c s (M.summarise r assignments) := by
  refine BuildM.Ensures.bind (.lift fun _ hcheck => hcheck) fun _ hcheck => ?_
  have hassignments : ∀ a ∈ assignments, ∀ n ∈ a.2.columns, n ∈ r.columns := by
    intro a ha
    exact h.mem_columns (Compiler.mem_of_checkAssignments hcheck a ha)
  refine (ensures_wrapIf h hnodup (fun _ hn => hn) ?_).bind fun s ⟨hs, haggregated, href⟩ => ?_
  · -- a plain level has columns of its `FROM` only, and all of them can be referred to
    intro hplain
    simp only [Level.isPlain, Bool.not_eq_false', Bool.and_eq_true, Bool.not_eq_true'] at hplain
    refine ⟨hplain.1.1.1, Body.canReference_outputs hplain.2 fun n hn => ?_⟩
    rw [h.outputs]
    exact hn
  · have hitem : ∀ a ∈ assignments, (c.summaryItem a.1 a.2).Ensures (Item.Computes c a) := by
      intro a _
      exact (ensures_compiling c a.2).bind fun sql hsql => .pure ⟨_, hsql, rfl, rfl⟩
    refine (BuildM.Ensures.mapM hitem).bind fun computed hcomputed => .pure ?_
    obtain ⟨source, hsource, hr⟩ := hs.exists_source
    have hsummary := M.readBody_summary haggregated href hs.grouping hassignments hcomputed source
    rw [← hr, ← hs.groups] at hsummary
    have hsummarise : { r with groups := s.groups } = r := by rw [hs.groups]
    rw [hsummarise] at hsummary
    refine ⟨?_, M.readLevel_withBody hsource hsummary rfl, rfl, by simp [summarise]⟩
    exact hs.compiled.withBody (hs.compiled.body.summary s.groups hcomputed)

theorem Denotes.arrange (h : M.Denotes c s r) (order : List Expr) : M.Denotes c { s with order } r :=
  ⟨h.compiled, h.level, h.groups, h.grouping⟩

theorem mem_of_mem_addNew {names keys : List String} {n : String}
    (h : n ∈ Compiler.addNew names keys) : n ∈ names ∨ n ∈ keys := by
  induction keys generalizing names with
  | nil => exact .inl h
  | cons key keys ih =>
      rw [Compiler.addNew] at h
      split at h
      · exact (ih h).imp_right (List.mem_cons_of_mem _)
      · rcases ih h with h | h
        · rcases List.mem_append.1 h with h | h
          · exact .inl h
          · exact .inr (List.mem_singleton.1 h ▸ List.mem_cons_self)
        · exact .inr (List.mem_cons_of_mem _ h)

theorem ensures_groupBy (h : M.Denotes c s r) (keys : List String) (add : Bool) :
    (liftM (Compiler.groupBy s keys add) : BuildM State).Ensures fun s =>
      M.Denotes c s (r.groupBy keys add) := by
  refine .lift fun next hnext => ?_
  obtain ⟨⟨⟩, hcheck, hnext⟩ := exists_of_bind_eq_ok hnext
  cases hnext
  have hkeys := h.mem_columns (State.mem_of_checkNames hcheck)
  refine ⟨h.compiled, h.level, ?_, ?_⟩
  · rw [Relation.groupBy, h.groups]
  · intro g hg
    rcases mem_of_mem_addNew hg with hg | hg
    · cases add with
      | false => cases hg
      | true => exact h.grouping g hg
    · exact hkeys g hg

/-! ## Chains -/

theorem ensures_filter (h : M.Denotes c s r) (hnodup : r.columns.Nodup) {e : Expr}
    (he : c.needsWindow e = false) :
    (c.filter s e).Ensures fun s => M.Denotes c s (M.filterRows r e) := by
  refine BuildM.Ensures.bind (.lift fun _ hcheck => hcheck) fun _ hcheck => ?_
  rw [he]
  exact ensures_filterRows h hnodup (h.mem_columns (State.mem_of_checkNames hcheck))

theorem ensures_mutate (h : M.Denotes c s r) (hnodup : r.columns.Nodup) (name : String) {e : Expr}
    (he : c.needsWindow e = false) :
    (c.mutate s name e).Ensures fun s => M.Denotes c s (M.assign r name e) := by
  refine BuildM.Ensures.bind (.lift fun _ hcheck => hcheck) fun _ hcheck => ?_
  rw [he]
  exact ensures_assign h hnodup name (h.mem_columns (State.mem_of_checkNames hcheck))

theorem ensures_step (h : M.Denotes c s r) (hnodup : r.columns.Nodup) {op : Op}
    (hop : op.isWindowFree c = true) :
    (c.step s op).Ensures fun s => M.Denotes c s (M.apply r op) := by
  cases op with
  | select idents => exact ensures_select h idents
  | rename pairs => exact ensures_rename h hnodup pairs
  | filter predicates =>
      have hfree := List.all_eq_true.1 hop
      refine .foldlM_foldl (fun r => r.columns.Nodup) h (fun n => ?_)
        fun s r hs hr e he => ensures_filter hs hr (by simpa using hfree e he)
      rwa [M.columns_filters]
  | mutate assignments =>
      have hfree := List.all_eq_true.1 hop
      exact .foldlM_foldl (fun r => r.columns.Nodup) h (fun n => M.nodup_assigns hnodup _)
        fun s r hs hr a ha => ensures_mutate hs hr a.1 (by simpa using hfree a ha)
  | summarise assignments => exact ensures_summarise h hnodup assignments
  | arrange keys =>
      refine .lift fun next hnext => ?_
      obtain ⟨_, _, hnext⟩ := exists_of_bind_eq_ok hnext
      cases hnext
      exact h.arrange keys
  | groupBy keys add => exact ensures_groupBy h keys add
  | ungroup => exact .pure ⟨h.compiled, h.level, rfl, by simp [apply, Relation.ungroup]⟩

theorem denotes_ofSource {source : Source} (hnodup : source.columns.Nodup) :
    M.Denotes c (.ofSource source) (M.table source) := by
  refine ⟨Body.isCompiled_identity source.columns, ?_, rfl, by simp [table]⟩
  have hread := M.readBody_identity (t := M.stored source.schema source.name source.columns) hnodup
    (by simp [stored])
  exact congrArg some hread

/-- A chain without windows that is built denotes what its operations come to when they are applied
to the table one after another, row by row and in the same order of columns. Every text in it was
compiled from the expression that it is read as. -/
theorem readLevel_build (M : Semantics ω) (dialect : Dialect) (config : Config) (q : Query)
    (hfree : ∀ op ∈ q.ops, op.isWindowFree { dialect, config, functions := M.functions } = true)
    (hnodup : ∀ n, (M.result q.source (q.ops.take n)).columns.Nodup) (p later : Progress)
    (s : State)
    (hbuild : (Compiler.build { dialect, config, functions := M.functions } q).run p =
      .ok (s, later)) :
    s.columns = (M.result q.source q.ops).columns ∧
      M.readLevel s.level = some (M.result q.source q.ops).toRowSet ∧
      s.level.IsCompiled { dialect, config, functions := M.functions } := by
  have hchain : (Compiler.build { dialect, config, functions := M.functions } q).Ensures
      fun s => M.Denotes { dialect, config, functions := M.functions } s
        (M.result q.source q.ops) :=
    .foldlM_foldl (fun r => r.columns.Nodup) (denotes_ofSource (hnodup 0)) hnodup
      fun s r hs hr op hop => ensures_step hs hr (hfree op hop)
  have hs := hchain p s later hbuild
  exact ⟨hs.outputs, hs.level, hs.compiled⟩

/-- Integers with their sums and counts, over the rows of a single table. -/
def integers (rows : List Env) : Semantics Scalar where
  tables _ _ := rows
  functions := .builtin
  ofScalar v := v
  toScalar v := v
  isTrue v := v == .boolean true
  binary
    | .add, .int64 m, .int64 n => .int64 (m + n)
    | .gt, .int64 m, .int64 n => .boolean (n < m)
    | _, _, _ => .null
  unary _ _ := .null
  conditional _ _ _ := .null
  inList _ _ := .null
  inValue _ _ := .null
  call _ _ := .null
  aggregate
    | "n", rows => .int64 (.ofNat rows.length)
    | "sum", rows =>
      .int64 (rows.flatten.foldl (fun total arg =>
        match arg.value with
        | .int64 n => total + n
        | _ => total) 0)
    | _, _ => .null

/-- A column that is replaced and then filtered by, groups of which one has a null key, and two
names that are swapped before one of them is assigned. -/
theorem readLevel_build_swapped :
    let rows := [[.null, .int64 0], [.null, .int64 1], [.utf8 "a", .int64 2], [.null, .int64 4]]
    let M := integers (rows.map (cell ["g", "x"]))
    let q : Query :=
      { source := { schema := none, name := "t", columns := ["g", "x"] }
        ops := [
          .mutate [("x", .binary .add (.column "x") (.literal (.int64 1)))],
          .filter [.binary .gt (.column "x") (.literal (.int64 1))],
          .groupBy ["g"] false,
          .summarise [
            ("total", .plainCall "sum" [.column "x"]), ("rows", .plainCall "n" [])],
          .rename [("total", "rows"), ("rows", "total")],
          .mutate [("total", .binary .add (.column "total") (.column "rows"))]] }
    ∃ s later, (Compiler.build (.builtin .ansi .default) q).run .start = .ok (s, later) ∧
      s.columns = ["g", "rows", "total"] ∧
      M.readLevel s.level = some
        { columns := ["g", "rows", "total"]
          rows := [[.null, .int64 7, .int64 9], [.utf8 "a", .int64 3, .int64 4]] } := by
  intro rows M q
  have hresult : (M.result q.source q.ops).toRowSet =
      { columns := ["g", "rows", "total"]
        rows := [[.null, .int64 7, .int64 9], [.utf8 "a", .int64 3, .int64 4]] } := by decide
  have hfree : ∀ op ∈ q.ops, op.isWindowFree (.builtin .ansi .default) = true := by decide
  have hfirst : ∀ n < 6, (M.result q.source (q.ops.take n)).columns.Nodup := by decide
  have hnodup : ∀ n, (M.result q.source (q.ops.take n)).columns.Nodup := by
    intro n
    rcases Nat.lt_or_ge n 6 with hn | hn
    · exact hfirst n hn
    · rw [List.take_of_length_le hn]
      decide
  have hok : ((Compiler.build (.builtin .ansi .default) q).run .start).isOk = true := by
    decide +kernel
  cases hbuild : (Compiler.build (.builtin .ansi .default) q).run .start with
  | error e =>
      rw [hbuild] at hok
      cases hok
  | ok built =>
      obtain ⟨s, later⟩ := built
      obtain ⟨hcolumns, hlevel, _⟩ :=
        readLevel_build M .ansi .default q hfree hnodup .start later s hbuild
      rw [hresult] at hlevel
      exact ⟨s, later, rfl, hcolumns, hlevel⟩

end Semantics

end SqlChain
