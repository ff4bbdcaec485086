import SqlChain.Proofs.Group.Beginning
import SqlChain.Proofs.Settings

/-!
# Executions that stop

Nothing is asked of the connection before everything that can be checked without it was checked
(`Query.requests_ne_nil_iff`). From the first page on, an execution stops at the first thing that
goes wrong.
-/

namespace SqlChain

open SqlChain.Computation

variable {σ ω : Type}

/-! ## Names of computations -/

namespace Computation

/-- One computation without a name, or one or more with different names. -/
def WellNamed (names : List (Option String)) : Prop :=
  names = [none] ∨ names ≠ [] ∧ (∀ name ∈ names, name.isSome) ∧ names.Nodup

theorem duplicate?_eq_none_iff (seen names : List (Option String)) :
    duplicate? seen names = none ↔ (∀ name ∈ names, name ∉ seen) ∧ names.Nodup := by
  induction names generalizing seen with
  | nil => simp [duplicate?]
  | cons name names ih =>
      by_cases hseen : name ∈ seen
      · simp [duplicate?, hseen]
      · simp only [duplicate?, List.contains_eq_mem, hseen, decide_false, Bool.false_eq_true,
          if_false, ih, List.mem_append, List.mem_cons, forall_eq_or_imp, List.nodup_cons]
        grind

theorem checkNames_eq_ok_iff (names : List (Option String)) :
    checkNames names = .ok () ↔ WellNamed names := by
  by_cases hempty : names = []
  · simp [checkNames, WellNamed, hempty]
  have hpos : 0 < names.length := List.length_pos_iff.2 hempty
  have hall : names.countP Option.isSome = names.length ↔ ∀ name ∈ names, name.isSome :=
    List.countP_eq_length
  by_cases hnamed : ∀ name ∈ names, name.isSome
  · have hnone : names ≠ [none] := by
      rintro rfl
      simp at hnamed
    have hdistinct : duplicate? [] names = none ↔ names.Nodup := by simp [duplicate?_eq_none_iff]
    rw [WellNamed, checkNames, hall.2 hnamed, ← hdistinct]
    cases duplicate? [] names with
    | none => simpa [hempty, hnone, hpos.ne'] using hnamed
    | some name => simp [hempty, hnone, hpos.ne']
  · have hlength : names.countP Option.isSome ≠ names.length := hall.not.2 hnamed
    by_cases hzero : names.countP Option.isSome = 0 ∧ names.length = 1
    · obtain ⟨name, rfl⟩ := List.length_eq_one_iff.1 hzero.2
      cases name with
      | none => simp [WellNamed, checkNames, duplicate?]
      | some name => simp at hnamed
    · have hnone : names ≠ [none] := by
        rintro rfl
        simp at hzero
      have hrefused : checkNames names ≠ .ok () := by
        rw [checkNames]
        grind
      simp [WellNamed, hnone, hnamed, hrefused]

end Computation

/-! ## Requests -/

namespace Query

/-- What an execution asks the connection for, if its statements can be rendered. -/
inductive Planned (q : Query) (dialect : Dialect) (config : Config) : List Request → Prop
  | ungrouped {rows : Rendered} (hrows : q.render .groups dialect config = .ok rows)
      (hgroups : rows.groups = []) :
      Planned q dialect config [.fetch rows.sql config.chunkSize.toNat]
  | grouped {rows labels : Rendered} (hrows : q.render .groups dialect config = .ok rows)
      (hgroups : rows.groups ≠ []) (hlabels : q.render .labels dialect config = .ok labels) :
      Planned q dialect config [.execute labels.sql, .fetch rows.sql config.chunkSize.toNat]

variable {q : Query} {connection : Connection} {dialect : Dialect} {config : Config}
  {computations : List (Computation σ ω)} {client : σ} {aborted : Bool}

/-- What is asked for when there are these statements and none of them fails. -/
def requestsOf (config : Config) (s : Statements) : List Request :=
  (s.labels.map fun labels => Request.execute labels.sql).toList ++
    [.fetch s.rows.sql config.chunkSize.toNat]

/-- There are statements exactly when everything that is checked before them is in order and both
of them can be rendered. -/
theorem exists_statements_iff {plan : List Request} :
    (∃ s, q.statements dialect config computations = .ok s ∧ requestsOf config s = plan) ↔
      WellNamed (computations.map (·.name)) ∧ config.validate = .ok () ∧
        Planned q dialect config plan := by
  constructor
  · rintro ⟨s, hs, rfl⟩
    obtain ⟨_, hnames, hs⟩ := exists_of_bind_eq_ok hs
    obtain ⟨_, hconfig, hs⟩ := exists_of_bind_eq_ok hs
    obtain ⟨rows, hrows, hs⟩ := exists_of_bind_eq_ok hs
    refine ⟨(checkNames_eq_ok_iff _).1 hnames, hconfig, ?_⟩
    split at hs
    · next hgroups =>
        cases hs
        exact .ungrouped hrows (List.isEmpty_iff.1 hgroups)
    · next hgroups =>
        obtain ⟨labels, hlabels, hs⟩ := exists_of_bind_eq_ok hs
        cases hs
        exact .grouped hrows (fun hnil => hgroups (List.isEmpty_iff.2 hnil)) hlabels
  · rintro ⟨hnames, hconfig, hplan⟩
    rw [← checkNames_eq_ok_iff] at hnames
    cases hplan with
    | @ungrouped rows hrows hgroups =>
        refine ⟨⟨rows, none⟩, ?_, rfl⟩
        simp [statements, hnames, hconfig, hrows, hgroups, bind, Except.bind, pure, Except.pure]
    | @grouped rows labels hrows hgroups hlabels =>
        refine ⟨⟨rows, some labels⟩, ?_, rfl⟩
        simp [statements, hnames, hconfig, hrows, hgroups, hlabels, bind, Except.bind, pure,
          Except.pure]

theorem requests_of_statements_error {e : Error}
    (h : q.statements connection.dialect config computations = .error e) :
    (q.execute connection config computations client aborted).requests = [] := by
  rw [execute, h]

/-- The rows are asked for last, and only if the labels were answered. -/
theorem requests_of_statements_ok {s : Statements}
    (h : q.statements connection.dialect config computations = .ok s) :
    let requests := (q.execute connection config computations client aborted).requests
    requests ≠ [] ∧ requests <+: requestsOf config s ∧
      ((∃ sql n, Request.fetch sql n ∈ requests) →
        ∃ begun, q.beginning connection config computations = .ok begun) := by
  intro requests
  subst requests
  rw [execute, beginning, h]
  rcases s with ⟨rows, _ | labels⟩
  · exact ⟨List.cons_ne_nil _ _, List.prefix_rfl, fun _ => ⟨_, rfl⟩⟩
  · dsimp only
    cases connection.execute labels.sql with
    | error reason => exact ⟨by simp, ⟨[.fetch rows.sql config.chunkSize.toNat], rfl⟩, by simp⟩
    | ok table => exact ⟨List.cons_ne_nil _ _, List.prefix_rfl, fun _ => ⟨_, rfl⟩⟩

theorem exists_beginning_of_fetch (h : ∃ sql n, Request.fetch sql n ∈
      (q.execute connection config computations client aborted).requests) :
    ∃ begun, q.beginning connection config computations = .ok begun := by
  cases hs : q.statements connection.dialect config computations with
  | error e => simp [requests_of_statements_error hs] at h
  | ok s => exact (requests_of_statements_ok hs).2.2 h

/-- Anything is sent only if all that can be checked before is in order. -/
theorem requests_ne_nil_iff :
    (q.execute connection config computations client aborted).requests ≠ [] ↔
      WellNamed (computations.map (·.name)) ∧ config.validate = .ok () ∧
        ∃ plan, Planned q connection.dialect config plan := by
  constructor
  · intro hne
    cases hs : q.statements connection.dialect config computations with
    | error e => exact absurd (requests_of_statements_error hs) hne
    | ok s =>
        obtain ⟨hnames, hconfig, hplan⟩ := exists_statements_iff.1 ⟨s, hs, rfl⟩
        exact ⟨hnames, hconfig, _, hplan⟩
  · rintro ⟨hnames, hconfig, plan, hplan⟩
    obtain ⟨s, hs, _⟩ := exists_statements_iff.2 ⟨hnames, hconfig, hplan⟩
    exact (requests_of_statements_ok hs).1

theorem requests_isPrefix {plan : List Request} (h : Planned q connection.dialect config plan) :
    (q.execute connection config computations client aborted).requests <+: plan := by
  cases hs : q.statements connection.dialect config computations with
  | error e =>
      rw [requests_of_statements_error hs]
      exact List.nil_prefix
  | ok s =>
      -- the statements are rendered in one way only
      obtain ⟨hnames, hconfig, _⟩ := exists_statements_iff.1 ⟨s, hs, rfl⟩
      obtain ⟨s', hs', rfl⟩ := exists_statements_iff.2 ⟨hnames, hconfig, h⟩
      cases hs.symm.trans hs'
      exact (requests_of_statements_ok hs).2.1

/-! ## What was done before the first error -/

/-- Nothing is sent before everything was checked, and nothing more is done once something went
wrong. The requests are the first of those that are planned. If the labels cannot be had nothing is
fetched and nothing called. Otherwise a page is taken only if the rows before it were in order and
their groups were served, and a computation is called only if all calls before it returned, no abort
was requested before its group, and the groups up to this one are the next labels. There is an
output only if nothing went wrong at all. -/
theorem execute_stops_at_first_error (q : Query) (connection : Connection) (config : Config)
    (computations : List (Computation σ ω)) (client : σ) (aborted : Bool) :
    let execution := q.execute connection config computations client aborted
    let called := q.calls connection config computations client aborted
    (execution.requests ≠ [] ↔ WellNamed (computations.map (·.name)) ∧
      (1 ≤ config.chunkSize.toNat ∧ config.chunkSize.toNat ≤ 1000000) ∧
        ∃ plan, Planned q connection.dialect config plan) ∧
    (∀ plan, Planned q connection.dialect config plan → execution.requests <+: plan) ∧
    (∀ e, q.beginning connection config computations = .error e →
      (∀ sql n, Request.fetch sql n ∉ execution.requests) ∧ execution.pages = 0 ∧ called = [] ∧
        execution.outcome = .error e) ∧
    ∀ rendered labels, q.beginning connection config computations = .ok (rendered, labels) →
      let feed := connection.fetch rendered.sql config.chunkSize.toNat
      let keys := rendered.groups.length
      let columns := rendered.columns
      let runs := due connection config rendered labels
      ∃ made : List (Computation σ ω × Group),
        called = made.map (fun x => (x.1.name, x.2)) ∧
        made <+: callsFor computations columns runs ∧
        Timely computations columns labels client aborted runs made ∧
        execution.pages ≤ feed.pages.length ∧
        (∀ n < execution.pages, Smooth computations columns labels client aborted keys
          ((feed.pages.take n).flatMap RowSet.rows)) ∧
        ∀ result, execution.outcome = .ok result →
          execution.pages = feed.pages.length ∧ feed.failure = none ∧
          Orderly keys (feed.pages.flatMap RowSet.rows) ∧ runs.length = labels.rows.length ∧
          made = callsFor computations columns runs ∧
          ∃ values, Served computations columns labels client aborted runs values := by
  intro execution called
  refine ⟨?_, fun plan => requests_isPrefix, fun e h => ?_, fun rendered labels h => ?_⟩
  · rw [← Config.validate_eq_ok_iff]
    exact requests_ne_nil_iff
  · obtain ⟨requests, hexecute⟩ := execute_of_beginning_error h client aborted
    refine ⟨fun sql n hmem => ?_, congrArg Execution.pages hexecute,
      calls_of_beginning_error h client aborted, congrArg Execution.outcome hexecute⟩
    obtain ⟨begun, hbegun⟩ := exists_beginning_of_fetch ⟨sql, n, hmem⟩
    cases h.symm.trans hbegun
  intro feed keys columns runs
  obtain ⟨made, ended, hcalled, _, _, hended, houtcome⟩ := exists_ended h client aborted
  refine ⟨made, hcalled, hended.course.isPrefix, hended.timely, hended.taken_le, hended.smooth,
    fun result hresult => ?_⟩
  obtain ⟨_, hfinished, _⟩ := exists_of_bind_eq_ok (houtcome.symm.trans hresult)
  obtain ⟨htaken, hfailure, horderly, hlength, values, hserved⟩ := hended.of_ok hfinished
  exact ⟨htaken, hfailure, horderly, hlength, (hfinished ▸ hended.course).of_ok, values,
    hserved.served⟩

/-- Two computations on three groups. The first one fails in its first call, which is for a group
that the first of two pages completes. -/
theorem execute_stops_at_failed_call :
    let q : Query :=
      { source := { schema := none, name := "t", columns := ["g", "v"] }
        ops := [.groupBy ["g"] false] }
    let page (rows : List Row) : RowSet := { columns := ["g", "v"], rows }
    let connection : Connection :=
      { dialect := Dialect.ansi
        execute := fun _ => .ok { columns := ["g"], rows := [[.utf8 "a"], [.utf8 "b"], [.null]] }
        fetch := fun _ _ =>
          { pages := [page [[.utf8 "a", .int64 1], [.utf8 "b", .int64 2]], page [[.null, .int64 3]]]
            failure := none } }
    let computation (name : String) (value : Except String (GroupValue Empty)) :
        Computation Nat Empty :=
      { name := some name
        run := fun _ calls => { value, state := calls + 1, abort := false } }
    let computations := [computation "m" (.error "no"), computation "n" (.ok (.scalar .null))]
    let first : Group := ⟨0, [.utf8 "a"], page [[.utf8 "a", .int64 1]]⟩
    let execution := q.execute connection .default computations 0 false
    execution.requests ≠ [] ∧ execution.pages = 1 ∧
      q.calls connection .default computations 0 false = [(some "m", first)] ∧
      execution.outcome.toOption.isNone ∧
      ∃ made rendered labels, made.map (fun x => (x.1.name, x.2)) = [(some "m", first)] ∧
        Timely computations ["g", "v"] labels 0 false (due connection .default rendered labels)
          made := by
  intro q page connection computation computations first execution
  obtain ⟨rendered, labels, hbeginning, hcolumns⟩ : ∃ rendered labels,
      q.beginning connection .default computations = .ok (rendered, labels) ∧
        rendered.columns = ["g", "v"] := by
    subst connection q
    exact ⟨_, _, rfl, by decide⟩
  have hplan : ∃ plan, Planned q connection.dialect .default plan := by
    subst connection q
    exact ⟨_, .grouped rfl (by decide) rfl⟩
  have hcalls : q.calls connection .default computations 0 false = [(some "m", first)] := by
    decide +kernel
  have hpages : execution.pages = 1 := by decide +kernel
  obtain ⟨hrequests, _, _, hcourse⟩ :=
    q.execute_stops_at_first_error connection .default computations 0 false
  obtain ⟨made, hcalled, _, htimely, _, _, hok⟩ := hcourse rendered labels hbeginning
  refine ⟨hrequests.2 ⟨.inr (by decide), by decide, hplan⟩, hpages, hcalls, ?_, made, rendered,
    labels, hcalled.symm.trans hcalls, hcolumns ▸ htimely⟩
  cases houtcome : execution.outcome with
  | error e => rfl
  | ok result =>
      have hall := (hok result houtcome).1
      rw [hpages] at hall
      cases hall

end Query

end SqlChain
