import SqlChain.Proofs.Group.Execution

/-!
# What an execution returns

An execution of named computations that do not fail ends well exactly when the runs of the rows
are the labels (`execute_eq_labels`). Every computation has then seen every group once, and its
values are the column of its name.
-/

namespace SqlChain

namespace Query

variable {σ ω : Type} {q : Query} {connection : Connection} {config : Config}
  {computations : List (Computation σ ω)} {client : σ} {rendered : Rendered} {labels : RowSet}

/-- The labels that an execution compares the rows with. -/
inductive HasLabels (q : Query) (connection : Connection) (config : Config)
    (rendered : Rendered) : RowSet → Prop where
  | single (h : rendered.groups = []) : HasLabels q connection config rendered singleLabel
  | fetched {statement : Rendered} {table : RowSet} (h : rendered.groups ≠ [])
      (hrender : q.render .labels connection.dialect config = .ok statement)
      (hexecute : connection.execute statement.sql = .ok table) (hcolumns : table.columns ≠ []) :
      HasLabels q connection config rendered table

theorem HasLabels.columns_eq_nil_iff (h : q.HasLabels connection config rendered labels) :
    labels.columns = [] ↔ rendered.groups.length = 0 := by
  cases h with
  | single h => simp [singleLabel, h]
  | fetched h _ _ hcolumns => simp [hcolumns, h]

/-- Nothing stands in the way of the traversal once the labels are there. -/
theorem HasLabels.execute_eq (h : q.HasLabels connection config rendered labels) (client : σ)
    (hnames : Computation.checkNames (computations.map (·.name)) = .ok ())
    (hconfig : config.validate = .ok ())
    (hrows : q.render .groups connection.dialect config = .ok rendered) (aborted : Bool) :
    ∃ sent, q.execute connection config computations client aborted =
      traverse connection config rendered computations labels sent client aborted := by
  cases h with
  | single h =>
      have hstatements : q.statements connection.dialect config computations =
          .ok { rows := rendered, labels := none } := by
        simp [statements, hnames, hconfig, hrows, h, bind, Except.bind, pure, Except.pure]
      exact ⟨[], by rw [execute, hstatements]⟩
  | @fetched statement table h hrender hexecute _ =>
      have hstatements : q.statements connection.dialect config computations =
          .ok { rows := rendered, labels := some statement } := by
        simp [statements, hnames, hconfig, hrows, h, hrender, bind, Except.bind, pure, Except.pure]
      refine ⟨[.execute statement.sql], ?_⟩
      simp only [execute, hstatements, hexecute]

/-- A traversal is the run of its steps, and its results are put together at the end. -/
theorem traverse_eq {feed : Feed} (hfeed : connection.fetch rendered.sql config.chunkSize.toNat = feed)
    (sent : List Request) {ended : Except Error Unit} {next : Traversal σ ω}
    (hrun : TraversalM.exec (TraversalM.run computations feed)
      (.start rendered.columns rendered.groups.length computations.length labels client false) =
        (ended, next)) :
    (traverse connection config rendered computations labels sent client false).client =
        next.client ∧
      (traverse connection config rendered computations labels sent client false).outcome = do
        ended
        let output ← Output.assemble labels (computations.map (·.name)) next.slots
        return { output, stats := next.stats } := by
  subst hfeed
  simp only [TraversalM.exec, TraversalM.run] at hrun
  simp only [traverse, hrun]
  exact ⟨trivial, trivial⟩

theorem traverse_of_inLabelOrder (client : σ) (hsteady : ∀ c ∈ computations, c.IsSteady)
    (hnamed : ∀ c ∈ computations, c.name.isSome)
    (hlabels : labels.columns = [] ↔ rendered.groups.length = 0) {pages : List RowSet}
    (hfeed : connection.fetch rendered.sql config.chunkSize.toNat = { pages, failure := none })
    (hrows : InLabelOrder rendered.groups.length labels.rows (pages.flatMap RowSet.rows))
    (sent : List Request) :
    ∃ values : List (List (GroupValue ω)),
      Computation.replay (Computation.calls computations (Group.ofRuns rendered.columns
        (Run.groups rendered.groups.length (pages.flatMap RowSet.rows)))) client =
          ((traverse connection config rendered computations labels sent client false).client,
            values.flatten.map .ok) ∧
      values.length = labels.rows.length ∧ (∀ vs ∈ values, vs.length = computations.length) ∧
      (traverse connection config rendered computations labels sent client false).outcome = .ok {
        output := .perGroup labels (computations.mapIdx fun j c =>
          (c.name.getD "", values.filterMap (·[j]?)))
        stats :=
          { pages := pages.length
            rows := (pages.flatMap RowSet.rows).length
            groups := labels.rows.length } } := by
  obtain ⟨next, values, hrun, hnext, hpages, hlength⟩ :=
    Traversal.Follows.exec_run rendered.columns client hsteady hlabels hrows
  obtain ⟨hclient, houtcome⟩ := traverse_eq hfeed sent hrun
  have hcount := (Matches.forall₂_iff.1 hrows.labelled).1
  have hvalues : values.length = labels.rows.length := by rw [hnext.length_eq, hcount]
  refine ⟨values, ?_, hvalues, hnext.width, ?_⟩
  · rw [hclient, hnext.replay_eq]
  · have hstats : next.stats =
        { pages := pages.length
          rows := (pages.flatMap RowSet.rows).length
          groups := labels.rows.length } := by
      rw [← hpages, ← hlength, hcount, ← hnext.groups_eq]
    rw [houtcome, hnext.slots_eq, Output.assemble_slotsOf hnamed hvalues, hstats]
    rfl

theorem traverse_of_not_inLabelOrder (client : σ)
    (hsteady : ∀ c ∈ computations, c.IsSteady)
    (hlabels : labels.columns = [] ↔ rendered.groups.length = 0) {pages : List RowSet}
    (hfeed : connection.fetch rendered.sql config.chunkSize.toNat = { pages, failure := none })
    (hrows : ¬ InLabelOrder rendered.groups.length labels.rows (pages.flatMap RowSet.rows))
    (sent : List Request) :
    ∃ e, (traverse connection config rendered computations labels sent client false).outcome =
      .error e := by
  obtain ⟨e, next, hrun⟩ := Traversal.Follows.exec_run_refused rendered.columns client
    hsteady hlabels hrows
  exact ⟨e, (traverse_eq hfeed sent hrun).2⟩

/-- Named computations that do not fail are run to the end exactly when the runs of the rows have
different keys and are the labels, one by one. Then every computation was called once for every
label, in the order of the labels and each time with the rows of the run, and the values returned
are in the columns of the output. -/
theorem execute_eq_labels (q : Query) (connection : Connection) (config : Config)
    (computations : List (Computation σ ω)) (client : σ) (rendered : Rendered) (labels : RowSet)
    (pages : List RowSet)
    (hconfig : config.validate = .ok ())
    (hnames : Computation.checkNames (computations.map (·.name)) = .ok ())
    (hnamed : ∀ c ∈ computations, c.name.isSome)
    (hsteady : ∀ c ∈ computations, c.IsSteady)
    (hrender : q.render .groups connection.dialect config = .ok rendered)
    (hlabels : q.HasLabels connection config rendered labels)
    (hfeed : connection.fetch rendered.sql config.chunkSize.toNat = { pages, failure := none }) :
    let rows := pages.flatMap RowSet.rows
    let execution := q.execute connection config computations client false
    ((∃ result, execution.outcome = .ok result) ↔
      InLabelOrder rendered.groups.length labels.rows rows) ∧
    ∀ result, execution.outcome = .ok result → ∃ values : List (List (GroupValue ω)),
      Computation.replay (Computation.calls computations (Group.ofRuns rendered.columns
        (Run.groups rendered.groups.length rows))) client =
          (execution.client, values.flatten.map .ok) ∧
      values.length = labels.rows.length ∧ (∀ vs ∈ values, vs.length = computations.length) ∧
      result.output = .perGroup labels (computations.mapIdx fun j c =>
        (c.name.getD "", values.filterMap (·[j]?))) ∧
      result.stats =
        { pages := pages.length, rows := rows.length, groups := labels.rows.length } := by
  intro rows execution
  obtain ⟨sent, hexecution⟩ :=
    hlabels.execute_eq client hnames hconfig hrender false
  have hcolumns := hlabels.columns_eq_nil_iff
  have hrefused : ¬ InLabelOrder rendered.groups.length labels.rows rows →
      ∃ e, execution.outcome = .error e := by
    intro hrows
    obtain ⟨e, he⟩ := traverse_of_not_inLabelOrder client hsteady hcolumns hfeed hrows sent
    exact ⟨e, by rw [← he, ← hexecution]⟩
  constructor
  · constructor
    · rintro ⟨result, hresult⟩
      by_contra hrows
      obtain ⟨e, he⟩ := hrefused hrows
      rw [hresult] at he
      cases he
    · intro hrows
      obtain ⟨values, _, _, _, houtcome⟩ :=
        traverse_of_inLabelOrder client hsteady hnamed hcolumns hfeed hrows sent
      exact ⟨_, by rw [← houtcome, ← hexecution]⟩
  · intro result hresult
    have hrows : InLabelOrder rendered.groups.length labels.rows rows := by
      by_contra hrows
      obtain ⟨e, he⟩ := hrefused hrows
      rw [hresult] at he
      cases he
    obtain ⟨values, hreplay, hlength, hwidth, houtcome⟩ :=
      traverse_of_inLabelOrder client hsteady hnamed hcolumns hfeed hrows sent
    rw [← hexecution] at hreplay houtcome
    have heq : result = _ := Except.ok.inj (hresult.symm.trans houtcome)
    exact ⟨values, hreplay, hlength, hwidth, by rw [heq], by rw [heq]⟩

/-- A group that goes on over an empty page and one with a null key, for two computations that
count their calls. -/
theorem execute_eq_labels_split_group :
    let q : Query :=
      { source := { schema := none, name := "t", columns := ["g", "v"] }
        ops := [.groupBy ["g"] false] }
    let page (rows : List Row) : RowSet := { columns := ["g", "v"], rows }
    let pages : List RowSet :=
      [page [[.utf8 "a", .int64 1], [.utf8 "a", .int64 2]], page [],
        page [[.utf8 "a", .int64 3], [.null, .int64 4]]]
    let labels : RowSet := { columns := ["g"], rows := [[.utf8 "a"], [.null]] }
    let connection : Connection :=
      { dialect := Dialect.ansi
        execute := fun _ => .ok labels
        fetch := fun _ _ => { pages, failure := none } }
    let count (name : String) : Computation Nat Empty :=
      { name := some name
        run := fun group calls =>
          { value := .ok (.table group.rows), state := calls + 1, abort := false } }
    let execution := q.execute connection .default [count "m", count "n"] 0 false
    (∃ rendered, q.render .groups connection.dialect .default = .ok rendered ∧
      rendered.groups = ["g"]) ∧
    InLabelOrder 1 labels.rows (pages.flatMap RowSet.rows) ∧
    ∃ result, execution.outcome = .ok result := by
  intro q page pages labels connection count execution
  obtain ⟨rendered, hrender, hgroups⟩ : ∃ rendered,
      q.render .groups connection.dialect .default = .ok rendered ∧ rendered.groups = ["g"] := by
    subst connection q
    exact ⟨_, rfl, rfl⟩
  obtain ⟨statement, hstatement⟩ : ∃ statement,
      q.render .labels connection.dialect .default = .ok statement := by
    subst connection q
    exact ⟨_, rfl⟩
  have hlabels : q.HasLabels connection .default rendered labels :=
    .fetched (by simp [hgroups]) hstatement rfl (by simp [labels])
  have hsteady : ∀ c ∈ [count "m", count "n"], c.IsSteady := by
    intro c hc
    simp only [List.mem_cons, List.not_mem_nil, or_false] at hc
    rcases hc with rfl | rfl <;> exact ⟨fun group _ => ⟨.table group.rows, rfl⟩, fun _ _ => rfl⟩
  have hiff := (execute_eq_labels q connection .default [count "m", count "n"] 0 rendered labels
    pages rfl rfl (by simp [count]) hsteady hrender hlabels rfl).1
  have hrows : InLabelOrder 1 labels.rows (pages.flatMap RowSet.rows) := by
    refine ⟨by decide, by decide, ?_⟩
    have hgroups : Run.groups 1 (pages.flatMap RowSet.rows) =
        [⟨[.utf8 "a"], [[.utf8 "a", .int64 1], [.utf8 "a", .int64 2], [.utf8 "a", .int64 3]]⟩,
          ⟨[.null], [[.null, .int64 4]]⟩] := by
      decide
    rw [hgroups]
    exact .cons (by decide) (.cons (by decide) .nil)
  rw [hgroups] at hiff
  exact ⟨⟨rendered, hrender, hgroups⟩, hrows, hiff.2 hrows⟩

end Query

end SqlChain
