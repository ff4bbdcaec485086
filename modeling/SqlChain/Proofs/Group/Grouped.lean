import SqlChain.Proofs.Group.Beginning
import SqlChain.Proofs.Group.Release

/-!
# Groups of grouped queries

The runs of the rows have rows, and a key with a value for every grouping column. The one run that
has neither is that of a traversal without rows, and it is due wherever the labels have no columns:
the table of labels, and not the query, decides whether there are groups. A traversal without rows
is followed step by step (`exec_run_of_no_rows`), which tells when it comes to this run.
-/

namespace SqlChain

open SqlChain.Computation

variable {σ ω : Type}

/-! ## Runs that have rows -/

theorem Run.isFilled_of_mem_split {keys : Nat} {rows : List Row}
    (wide : ∀ row ∈ rows, keys ≤ row.length) {run : Run} (h : run ∈ split keys rows) :
    run.IsFilled keys := by
  have hruns := isRuns_split keys rows
  refine ⟨hruns.rows_ne_nil h, fun row hr => wide row ?_, hruns.equal_key run h⟩
  rw [← hruns.rows_eq]
  exact List.mem_flatMap_of_mem h hr

theorem Run.IsFilled.length_key {keys : Nat} {run : Run} (h : run.IsFilled keys) :
    run.key.length = keys := by
  obtain ⟨row, hrow⟩ := List.exists_mem_of_ne_nil _ h.rows_ne_nil
  have hlength := congrArg List.length ((GroupKey.equal_iff _ _).1 (h.equal_key row hrow))
  have wide := h.wide row hrow
  simp only [GroupKey.canonical, List.length_map, List.length_take] at hlength
  omega

theorem isFilled_of_mem_dueFrom {keys : Nat} {single : Bool} {failure : Option String}
    {rows : List Row} {pages : List RowSet} (wide : ∀ row ∈ rows, keys ≤ row.length)
    (h : ¬ (single = true ∧ failure = none ∧ rows ++ pages.flatMap RowSet.rows = [])) {run : Run}
    (hrun : run ∈ dueFrom keys single failure rows pages) : run.IsFilled keys := by
  induction pages generalizing rows with
  | nil =>
      unfold dueFrom at hrun
      split at hrun
      · exact Run.isFilled_of_mem_split wide ((List.dropLast_sublist _).subset hrun)
      · split at hrun
        · next hempty => exact absurd ⟨hempty.1, rfl, by simpa using hempty.2⟩ h
        · exact Run.isFilled_of_mem_split wide hrun
  | cons page rest ih =>
      unfold dueFrom at hrun
      split at hrun
      · next horderly => exact ih horderly.1 (by simpa using h) hrun
      · exact Run.isFilled_of_mem_split wide ((List.dropLast_sublist _).subset hrun)

/-! ## Traversals without rows -/

/-- The results of computations that were never called. -/
def Output.empty (labels : RowSet) (names : List (Option String)) : Output ω :=
  if names = [none] then .combined { columns := labels.columns, rows := [] }
  else .perGroup labels (names.map fun name => (name.getD "", []))

theorem Output.assemble_empty {labels : RowSet} (h : labels.rows = [])
    (names : List (Option String)) :
    assemble labels names
        (List.replicate names.length (List.replicate labels.rows.length none)) =
      .ok (empty (ω := ω) labels names) := by
  have hslots : List.replicate names.length (List.replicate labels.rows.length none) =
      names.map fun _ => ([] : List (Option (GroupValue ω))) := by
    simp [h]
  have hfilled : (names.map fun _ => []).mapM (filled (ω := ω) labels.rows.length) =
      .ok (names.map fun _ => []) := by
    rw [List.mapM_map]
    exact List.mapM_pure
  rw [hslots]
  rw [assemble, hfilled]
  split
  · rw [empty, if_pos rfl]
    have hrows : combineRows (ω := ω) 0 none [] [] = .ok (none, []) := by simp [combineRows]
    change combine labels [] = _
    rw [combine, h, hrows]
    change Except.ok (combined { columns := labels.columns ++ [], rows := [] }) = _
    rw [List.append_nil]
  · next hnames =>
      rw [empty, if_neg hnames, ← List.zip_map']
      rfl

/-- What is left when so many pages without rows were taken. -/
def Traversal.drained (columns : List String) (keys slots : Nat) (labels : RowSet) (client : σ)
    (aborted : Bool) (pages : Nat) : Traversal σ ω :=
  { Traversal.start columns keys slots labels client aborted with
    phase := .draining
    stats := { pages, rows := 0, groups := 0 } }

namespace TraversalM

variable {computations : List (Computation σ ω)}

theorem exec_run_of_no_rows {pages : List RowSet} (h : pages.flatMap RowSet.rows = [])
    (failure : Option String) {t : Traversal σ ω} (hphase : t.phase = .fetching) :
    exec (run computations ⟨pages, failure⟩) t =
      exec (run computations ⟨[], failure⟩)
        { t with stats := { t.stats with pages := t.stats.pages + pages.length } } := by
  induction pages generalizing t with
  | nil => rfl
  | cons page pages ih =>
      rw [List.flatMap_cons, List.append_eq_nil_iff] at h
      have hpage : exec (onPage computations page) t = _ := Traversal.Follows.exec_onPage_eq page
      rw [h.1] at hpage
      rw [exec_run_cons_of_ok hpage, ih h.2 rfl]
      simp [hphase, Nat.add_assoc, Nat.add_comm 1, Carry.pushPage]

theorem exec_start_of_no_rows {feed : Feed} (h : feed.pages.flatMap RowSet.rows = [])
    (columns : List String) (keys slots : Nat) (labels : RowSet) (client : σ) (aborted : Bool) :
    exec (run computations feed) (.start columns keys slots labels client aborted) =
      let t := Traversal.drained columns keys slots labels client aborted feed.pages.length
      match feed.failure with
      | some reason => (.error (.connection reason), { t with phase := .fetching })
      | none =>
        exec (finish computations (if labels.columns = [] then some ⟨[], []⟩ else none)) t := by
  rcases feed with ⟨pages, failure⟩
  rw [exec_run_of_no_rows h failure rfl]
  cases failure with
  | some reason => simp [run, Query.takePages, Traversal.start, Traversal.drained]
  | none =>
      have hdrain : exec (run computations ⟨[], none⟩) = exec (drain computations) := rfl
      rw [hdrain, exec_drain]
      by_cases hcolumns : labels.columns = [] <;>
        simp [Traversal.last, Traversal.start, Traversal.drained, Carry.start, Carry.drain,
          hcolumns]

/-- The one run of a traversal without rows is given to the computations if it is the first label
and no abort was requested. -/
theorem exec_finish_single (hne : computations ≠ []) (columns : List String) (keys slots : Nat)
    (labels : RowSet) (client : σ) (aborted : Bool) (pages : Nat) :
    let t := Traversal.drained columns keys slots labels (client, []) aborted pages
    ∃ made,
      (exec (finish (computations.map logged) (some ⟨[], []⟩)) t).2.HasMade client aborted made ∧
      (∀ x ∈ made, x.2.rows.rows = []) ∧
      (made ≠ [] ↔ aborted = false ∧ labels.rows.head? = some []) := by
  intro t
  have h : t.HasMade client aborted [] := ⟨rfl, (Bool.or_false aborted).symm⟩
  have hrefused : ∀ {error : Error},
      exec (dispatch (computations.map logged) ⟨[], []⟩) t = (.error error, t) →
      (exec (finish (computations.map logged) (some ⟨[], []⟩)) t).2 = t := fun hexec =>
    congrArg Prod.snd (exec_bind_of_error hexec _)
  cases aborted with
  | true =>
      have hexec : exec (dispatch (computations.map logged) ⟨[], []⟩) t =
          (.error (.cancelled t.next), t) := by
        simp [dispatch, exec_bind, t, Traversal.drained, Traversal.start]
      refine ⟨[], ?_, by simp, by simp⟩
      rwa [hrefused hexec]
  | false =>
      by_cases hhead : labels.rows.head? = some []
      · have hlabel : t.labels.rows[t.next]? = some [] := List.head?_eq_getElem?.symm.trans hhead
        have hgroup : ∀ x ∈ computations.map (·, (⟨t.next, [], ⟨t.columns, []⟩⟩ : Group)),
            x.2.rows.rows = [] := by
          simp
        have hdispatch :=
          exec_dispatch_labelled (computations.map logged) ⟨[], []⟩ rfl hlabel rfl rfl
        obtain ⟨next, _, _, ⟨_, _, _, hexec, hmade, _⟩ |
          ⟨front, c, reason, hfront, _, _, hexec, hmade⟩⟩ :=
          exec_callAll_logged h ⟨t.next, [], ⟨t.columns, []⟩⟩ 0 computations
        · have hlast : exec (finish.dispatchLast (computations.map logged) (some ⟨[], []⟩)) t = _ :=
            hdispatch.trans (exec_bind_of_ok hexec _)
          obtain ⟨answer, phase, hfinish, _⟩ := exec_finish_of_ok hlast
          rw [hfinish]
          refine ⟨_, ⟨hmade.client_eq, hmade.aborted_eq⟩, hgroup, ?_⟩
          simp [hne, hhead]
        · have hfinish : exec (finish (computations.map logged) (some ⟨[], []⟩)) t = (_, next) :=
            exec_bind_of_error (hdispatch.trans (exec_bind_of_error hexec _)) _
          rw [hfinish]
          refine ⟨_, hmade, fun x hx => hgroup x ((hfront.map _).subset hx), ?_⟩
          simp [hhead]
      · have hlabel : ¬ ∃ label, t.labels.rows[t.next]? = some label ∧
            GroupKey.equal label [] = true := by
          rintro ⟨_ | ⟨value, label⟩, hfirst, hk⟩
          · exact hhead (List.head?_eq_getElem?.trans hfirst)
          · cases hk
        obtain ⟨error, _, hexec⟩ : ∃ error : Error, error.NotCancelled ∧
            exec (dispatch (computations.map logged) ⟨[], []⟩) t = (.error error, t) :=
          exec_dispatch_of_no_label rfl hlabel
        refine ⟨[], ?_, by simp, by simp [hhead]⟩
        rwa [hrefused hexec]

/-- Without labels there is nothing that this run could be compared with. -/
theorem exec_finish_of_no_labels (computations : List (Computation σ ω)) {labels : RowSet}
    (h : labels.rows = []) (columns : List String) (keys slots : Nat) (client : σ) (aborted : Bool)
    (pages : Nat) :
    let t := Traversal.drained columns keys slots labels client aborted pages
    exec (finish computations (some ⟨[], []⟩)) t =
        (.error (if aborted then .cancelled 0 else .groupCountMismatch 0 1), t) ∧
      exec (finish computations none) t = (.ok (), { t with phase := .done }) := by
  intro t
  constructor
  · refine exec_bind_of_error (?_ : exec (dispatch computations ⟨[], []⟩) t = _) _
    cases aborted <;> simp [dispatch, exec_bind, t, Traversal.drained, Traversal.start, h]
  · simp [finish, finish.dispatchLast, exec_bind, t, Traversal.drained, Traversal.start, h]

end TraversalM

namespace Query

theorem beginning_of_grouped {q : Query} {connection : Connection} {config : Config}
    {computations : List (Computation σ ω)} {rendered statement : Rendered} {table : RowSet}
    (hconfig : config.validate = .ok ())
    (hnames : Computation.checkNames (computations.map (·.name)) = .ok ())
    (hrender : q.render .groups connection.dialect config = .ok rendered)
    (hstatement : q.render .labels connection.dialect config = .ok statement)
    (hgroups : rendered.groups ≠ []) (htable : connection.execute statement.sql = .ok table) :
    q.beginning connection config computations = .ok (rendered, table) := by
  have hstatements : q.statements connection.dialect config computations =
      .ok { rows := rendered, labels := some statement } := by
    simp [statements, hnames, hconfig, hrender, hgroups, hstatement, bind, Except.bind, pure,
      Except.pure]
  rw [beginning, hstatements]
  simp only [htable]

section

variable {q : Query} {connection : Connection} {config : Config}
  {computations : List (Computation σ ω)} {rendered : Rendered} {labels : RowSet}
  (h : q.beginning connection config computations = .ok (rendered, labels)) (client : σ)
  (aborted : Bool)

include h

/-- Only the run of a traversal without rows has no rows. -/
theorem isFilled_of_mem_calls
    (hdue : ¬ (labels.columns.isEmpty = true ∧
      (connection.fetch rendered.sql config.chunkSize.toNat).failure = none ∧
      (connection.fetch rendered.sql config.chunkSize.toNat).pages.flatMap RowSet.rows = []))
    {call : Call} (hcall : call ∈ q.calls connection config computations client aborted) :
    call.2.rows.rows ≠ [] ∧ call.2.key.length = rendered.groups.length := by
  obtain ⟨made, ended, hcalled, _, _, hcourse, _⟩ := exists_course h client aborted
  rw [hcalled] at hcall
  obtain ⟨x, hx, rfl⟩ := List.mem_map.1 hcall
  obtain ⟨i, hi, hgroup⟩ := exists_of_mem_callsFor (hcourse.isPrefix.subset hx)
  have hfilled := isFilled_of_mem_dueFrom (List.forall_mem_nil _) hdue (List.getElem_mem hi)
  rw [hgroup]
  exact ⟨hfilled.rows_ne_nil, hfilled.length_key⟩

/-- Where the labels have no columns and there are no rows, all calls are for a group without
rows. -/
theorem calls_of_no_rows (hne : computations ≠ []) (hcolumns : labels.columns = [])
    (hfailure : (connection.fetch rendered.sql config.chunkSize.toNat).failure = none)
    (hrows :
      (connection.fetch rendered.sql config.chunkSize.toNat).pages.flatMap RowSet.rows = []) :
    (∀ call ∈ q.calls connection config computations client aborted, call.2.rows.rows = []) ∧
      (q.calls connection config computations client aborted ≠ [] ↔
        aborted = false ∧ labels.rows.head? = some []) := by
  rw [← beginning_logged] at h
  obtain ⟨requests, hexecute⟩ := execute_of_beginning_ok h (client, []) aborted
  have hcalls : q.calls connection config computations client aborted = _ :=
    congrArg (·.client.2) hexecute
  rw [TraversalM.exec_start_of_no_rows hrows] at hcalls
  simp only [hfailure, hcolumns, if_true] at hcalls
  obtain ⟨made, hmade, hgroup, hiff⟩ := TraversalM.exec_finish_single hne rendered.columns
    rendered.groups.length (computations.map logged).length labels client aborted
    (connection.fetch rendered.sql config.chunkSize.toNat).pages.length
  rw [show q.calls connection config computations client aborted = _ from
    hcalls.trans (congrArg Prod.snd hmade.client_eq)]
  constructor
  · exact List.forall_mem_map.2 hgroup
  · rw [← hiff, ne_eq, List.map_eq_nil_iff]

theorem outcome_of_no_rows
    (hrows : (connection.fetch rendered.sql config.chunkSize.toNat).pages.flatMap RowSet.rows = [])
    (hlabels : labels.rows = []) :
    (q.execute connection config computations client aborted).outcome =
      match (connection.fetch rendered.sql config.chunkSize.toNat).failure with
      | some reason => .error (.connection reason)
      | none =>
        if labels.columns = [] then
          .error (if aborted then .cancelled 0 else .groupCountMismatch 0 1)
        else
          .ok {
            output := .empty labels (computations.map (·.name))
            stats := {
              pages := (connection.fetch rendered.sql config.chunkSize.toNat).pages.length
              rows := 0
              groups := 0 } } := by
  obtain ⟨requests, hexecute⟩ := execute_of_beginning_ok h client aborted
  rw [hexecute, TraversalM.exec_start_of_no_rows hrows]
  dsimp only
  cases (connection.fetch rendered.sql config.chunkSize.toNat).failure with
  | some reason => rfl
  | none =>
      obtain ⟨hsingle, hnone⟩ := TraversalM.exec_finish_of_no_labels computations hlabels
        rendered.columns rendered.groups.length computations.length client aborted
        (connection.fetch rendered.sql config.chunkSize.toNat).pages.length
      by_cases hcolumns : labels.columns = []
      · rw [if_pos hcolumns, if_pos hcolumns, hsingle]
        rfl
      · have houtput := Output.assemble_empty (ω := ω) hlabels (computations.map (·.name))
        rw [List.length_map] at houtput
        -- nothing was released, and there are as many labels
        rw [if_neg hcolumns, if_neg hcolumns, hnone]
        simp only [Execution.ofRun, Traversal.drained, Traversal.start, houtput]
        rfl

end

/-- The computations of a grouped query are called for groups with rows, and with a key that has a
value for each of the grouping columns, but for one case: the table of labels has no columns and a
row, and the pages deliver no rows. If the table has no rows either, the execution ends well and
there is no group, or else it has no columns and the execution fails on a group that is not
there. -/
theorem execute_emptyGroup_iff (q : Query) (connection : Connection) (config : Config)
    (computations : List (Computation σ ω)) (client : σ) (aborted : Bool)
    (rendered statement : Rendered) (table : RowSet)
    (hconfig : config.validate = .ok ())
    (hnames : Computation.checkNames (computations.map (·.name)) = .ok ())
    (hrender : q.render .groups connection.dialect config = .ok rendered)
    (hstatement : q.render .labels connection.dialect config = .ok statement)
    (hgroups : rendered.groups ≠ []) (htable : connection.execute statement.sql = .ok table) :
    let feed := connection.fetch rendered.sql config.chunkSize.toNat
    let rows := feed.pages.flatMap RowSet.rows
    ((∃ call ∈ q.calls connection config computations client aborted,
        call.2.rows.rows = [] ∨ call.2.key.length ≠ rendered.groups.length) ↔
      feed.failure = none ∧ rows = [] ∧ table.columns = [] ∧ table.rows.head? = some [] ∧
        aborted = false) ∧
    (rows = [] → table.rows = [] →
      (q.execute connection config computations client aborted).outcome =
        match feed.failure with
        | some reason => .error (.connection reason)
        | none =>
          if table.columns = [] then
            .error (if aborted then .cancelled 0 else .groupCountMismatch 0 1)
          else
            .ok {
              output := .empty table (computations.map (·.name))
              stats := { pages := feed.pages.length, rows := 0, groups := 0 } }) := by
  intro feed rows
  have hbeginning := beginning_of_grouped hconfig hnames hrender hstatement hgroups htable
  have hne : computations ≠ [] := by
    rintro rfl
    cases hnames
  constructor
  · constructor
    · rintro ⟨call, hcall, hbad⟩
      obtain ⟨hsingle, hfailure, hrows⟩ : table.columns.isEmpty = true ∧ feed.failure = none ∧
          rows = [] := by
        by_contra hdue
        obtain ⟨hfilled, hkey⟩ := isFilled_of_mem_calls hbeginning client aborted hdue hcall
        exact hbad.elim hfilled fun hlength => hlength hkey
      have hcolumns := List.isEmpty_iff.1 hsingle
      obtain ⟨_, hiff⟩ := calls_of_no_rows hbeginning client aborted hne hcolumns hfailure hrows
      obtain ⟨haborted, hhead⟩ := hiff.1 (List.ne_nil_of_mem hcall)
      exact ⟨hfailure, hrows, hcolumns, hhead, haborted⟩
    · rintro ⟨hfailure, hrows, hcolumns, hhead, haborted⟩
      obtain ⟨hgroup, hiff⟩ :=
        calls_of_no_rows hbeginning client aborted hne hcolumns hfailure hrows
      obtain ⟨call, hcall⟩ := List.exists_mem_of_ne_nil _ (hiff.2 ⟨haborted, hhead⟩)
      exact ⟨call, hcall, .inl (hgroup call hcall)⟩
  · exact outcome_of_no_rows hbeginning client aborted

/-- A table of labels with a column. A page without rows gives no groups, and a page with a row gives
one, for which the computation is called. -/
theorem execute_emptyGroup_iff_noRows :
    let q : Query :=
      { source := { schema := none, name := "t", columns := ["g", "v"] }
        ops := [.groupBy ["g"] false] }
    let table (labels : List Row) : RowSet := { columns := ["g"], rows := labels }
    let connection (labels rows : List Row) : Connection :=
      { dialect := Dialect.ansi
        execute := fun _ => .ok (table labels)
        fetch := fun _ _ => { pages := [{ columns := ["g", "v"], rows }], failure := none } }
    let count : Computation Nat Empty :=
      { name := some "n"
        run := fun group calls =>
          { value := .ok (.table group.rows), state := calls + 1, abort := false } }
    let silent := connection [] []
    let filled := connection [[.utf8 "a"]] [[.utf8 "a", .int64 1]]
    (∃ rendered statement, q.render .groups Dialect.ansi .default = .ok rendered ∧
      q.render .labels Dialect.ansi .default = .ok statement ∧ rendered.groups ≠ []) ∧
    (∀ call ∈ q.calls silent .default [count] 0 false,
      call.2.rows.rows ≠ [] ∧ call.2.key.length = 1) ∧
    (q.execute silent .default [count] 0 false).outcome = .ok {
      output := .perGroup (table []) [("n", [])]
      stats := { pages := 1, rows := 0, groups := 0 } } ∧
    q.calls filled .default [count] 0 false =
      [(some "n",
        { index := 0
          key := [.utf8 "a"]
          rows := { columns := ["g", "v"], rows := [[.utf8 "a", .int64 1]] } })] ∧
    (∀ call ∈ q.calls filled .default [count] 0 false,
      call.2.rows.rows ≠ [] ∧ call.2.key.length = 1) := by
  intro q table connection count silent filled
  obtain ⟨rendered, statement, hrender, hstatement, hgroups⟩ : ∃ rendered statement,
      q.render .groups Dialect.ansi .default = .ok rendered ∧
      q.render .labels Dialect.ansi .default = .ok statement ∧ rendered.groups = ["g"] := by
    subst q
    exact ⟨_, _, rfl, rfl, rfl⟩
  have hne : rendered.groups ≠ [] := by simp [hgroups]
  have hkeyed (labels rows : List Row) :
      ∀ call ∈ q.calls (connection labels rows) .default [count] 0 false,
        call.2.rows.rows ≠ [] ∧ call.2.key.length = 1 := by
    intro call hcall
    obtain ⟨hcalls, -⟩ := q.execute_emptyGroup_iff (connection labels rows) .default [count] 0 false
      rendered statement (table labels) rfl rfl hrender hstatement hne rfl
    have hnone : ¬ (call.2.rows.rows = [] ∨ call.2.key.length ≠ rendered.groups.length) :=
      fun hbad => absurd (hcalls.1 ⟨call, hcall, hbad⟩).2.2.1 (List.cons_ne_nil _ _)
    rw [hgroups, not_or, not_not] at hnone
    exact hnone
  obtain ⟨-, houtcome⟩ := q.execute_emptyGroup_iff silent .default [count] 0 false rendered
    statement (table []) rfl rfl hrender hstatement hne rfl
  exact ⟨⟨rendered, statement, hrender, hstatement, hne⟩, hkeyed [] [], houtcome rfl rfl,
    by decide +kernel, hkeyed _ _⟩

/-- A grouped query whose table of labels has no columns. If the table has a row, a computation is
called for a group without rows and with no key, and if it has none the execution fails. -/
theorem execute_emptyGroup_columnless :
    let q : Query :=
      { source := { schema := none, name := "t", columns := ["g", "v"] }
        ops := [.groupBy ["g"] false] }
    let connection (labels : List Row) : Connection :=
      { dialect := Dialect.ansi
        execute := fun _ => .ok { columns := [], rows := labels }
        fetch := fun _ _ => { pages := [], failure := none } }
    let count : Computation Nat Empty :=
      { name := some "n"
        run := fun group calls =>
          { value := .ok (.table group.rows), state := calls + 1, abort := false } }
    (∃ rendered statement, q.render .groups Dialect.ansi .default = .ok rendered ∧
      q.render .labels Dialect.ansi .default = .ok statement ∧ rendered.groups = ["g"]) ∧
    q.calls (connection [[]]) .default [count] 0 false =
      [(some "n", { index := 0, key := [], rows := { columns := ["g", "v"], rows := [] } })] ∧
    (q.execute (connection []) .default [count] 0 false).outcome =
      .error (.groupCountMismatch 0 1) := by
  intro q connection count
  have hfails : ∀ {outcome : Except Error (Result Empty)},
      (match outcome with
        | .error (.groupCountMismatch expected found) => some (expected, found)
        | _ => none) = some (0, 1) →
      outcome = .error (.groupCountMismatch 0 1) := by
    intro outcome h
    split at h
    · cases h
      rfl
    · cases h
  refine ⟨?_, by decide +kernel, hfails (by decide +kernel)⟩
  subst q
  exact ⟨_, _, rfl, rfl, rfl⟩

end Query

end SqlChain
