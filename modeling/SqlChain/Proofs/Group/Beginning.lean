import SqlChain.Proofs.Group.Paging
import SqlChain.Proofs.Group.Served

/-!
# Executions from their beginning

Before the first page an execution has checked its computations, rendered its statements and asked
for the labels (`Query.beginning`). If any of this fails nothing is called. Otherwise the
computations are called in the course of a traversal for which the runs of the pages are due.
-/

namespace SqlChain

open SqlChain.Computation

namespace Query

variable {σ ω : Type}

/-- The statement for the rows and the labels, or what goes wrong before the first page. -/
def beginning (q : Query) (connection : Connection) (config : Config)
    (computations : List (Computation σ ω)) : Except Error (Rendered × RowSet) :=
  match q.statements connection.dialect config computations with
  | .error e => .error e
  | .ok { rows, labels := none } => .ok (rows, singleLabel)
  | .ok { rows, labels := some labels } =>
    match connection.execute labels.sql with
    | .error reason => .error (.connection reason)
    | .ok table => .ok (rows, table)

variable {q : Query} {connection : Connection} {config : Config}
  {computations : List (Computation σ ω)}

theorem beginning_logged (q : Query) (connection : Connection) (config : Config)
    (computations : List (Computation σ ω)) :
    q.beginning connection config (computations.map logged) =
      q.beginning connection config computations := by
  have hnames : (computations.map logged).map (·.name) = computations.map (·.name) := by
    simp [logged, Function.comp_def]
  rw [beginning, beginning, statements, statements, hnames]

theorem execute_of_beginning_error {e : Error}
    (h : q.beginning connection config computations = .error e) (client : σ) (aborted : Bool) :
    ∃ requests, q.execute connection config computations client aborted =
      { requests, pages := 0, client, aborted, outcome := .error e } := by
  revert h
  rw [beginning, execute]
  rcases q.statements connection.dialect config computations with e' | ⟨rows, _ | statement⟩
  · rintro ⟨⟩
    exact ⟨_, rfl⟩
  · rintro ⟨⟩
  · dsimp only
    cases connection.execute statement.sql with
    | error reason =>
        rintro ⟨⟩
        exact ⟨_, rfl⟩
    | ok table => rintro ⟨⟩

theorem execute_of_beginning_ok {rendered : Rendered} {labels : RowSet}
    (h : q.beginning connection config computations = .ok (rendered, labels)) (client : σ)
    (aborted : Bool) :
    ∃ requests, q.execute connection config computations client aborted =
      .ofRun requests labels (computations.map (·.name))
        (TraversalM.exec
          (TraversalM.run computations (connection.fetch rendered.sql config.chunkSize.toNat))
          (.start rendered.columns rendered.groups.length computations.length labels client
            aborted)) := by
  revert h
  rw [beginning, execute]
  rcases q.statements connection.dialect config computations with e | ⟨rows, _ | statement⟩
  · rintro ⟨⟩
  · rintro ⟨⟩
    exact ⟨_, traverse_eq_ofRun ..⟩
  · dsimp only
    cases connection.execute statement.sql with
    | error reason => rintro ⟨⟩
    | ok table =>
        rintro ⟨⟩
        exact ⟨_, traverse_eq_ofRun ..⟩

theorem calls_of_beginning_error {e : Error}
    (h : q.beginning connection config computations = .error e) (client : σ) (aborted : Bool) :
    q.calls connection config computations client aborted = [] := by
  rw [← beginning_logged] at h
  obtain ⟨requests, hexecute⟩ := execute_of_beginning_error h (client, []) aborted
  rw [calls, hexecute]

/-- The runs that are due in an execution with these labels. -/
def due (connection : Connection) (config : Config) (rendered : Rendered) (labels : RowSet) :
    List Run :=
  (connection.fetch rendered.sql config.chunkSize.toNat).due rendered.groups.length
    labels.columns.isEmpty

/-- What the outcome of an execution says of the end of its traversal. After a traversal that ends
well the results can still be refused, but nothing is cancelled. -/
structure Concludes (ended : Except Error Unit) (outcome : Except Error (Result ω)) : Prop where
  ended_ok : ∀ result, outcome = .ok result → ended = .ok ()
  outcome_error : ∀ e, ended = .error e → outcome = .error e
  ended_cancelled : ∀ limit, outcome = .error (.cancelled limit) →
    ended = .error (.cancelled limit)

theorem concludes_assemble (labels : RowSet) (names : List (Option String))
    (slots : List (List (Option (GroupValue ω)))) (stats : Stats) (ended : Except Error Unit) :
    Concludes ended (do
      ended
      let output ← Output.assemble labels names slots
      return { output, stats }) := by
  have hkind := (Output.failsWith_assemble labels names slots).bind
    fun output => FailsWith.ok (E := Error.NotCancelled) ({ output, stats } : Result ω)
  cases ended with
  | error e =>
      constructor
      · rintro result ⟨⟩
      · rintro _ ⟨⟩
        rfl
      · rintro limit ⟨⟩
        rfl
  | ok _ =>
      constructor
      · exact fun _ _ => rfl
      · rintro e ⟨⟩
      · exact fun limit hcancelled => (hkind _ hcancelled).elim

/-- What an execution that comes to its pages has left behind, with the traversal of them. -/
theorem exists_ended {rendered : Rendered} {labels : RowSet}
    (h : q.beginning connection config computations = .ok (rendered, labels)) (client : σ)
    (aborted : Bool) :
    let execution := q.execute connection config computations client aborted
    ∃ (made : List (Computation σ ω × Group))
        (ended : Except Error Unit × Traversal (σ × List Call) ω),
      q.calls connection config computations client aborted =
        made.map (fun x => (x.1.name, x.2)) ∧
      execution.client = (replay made client).1 ∧
      execution.aborted = asked aborted made client ∧
      Traversal.Ended computations rendered.columns labels client aborted rendered.groups.length []
        (connection.fetch rendered.sql config.chunkSize.toNat)
        (due connection config rendered labels) made execution.pages ended ∧
      execution.outcome = (do
        ended.1
        let output ← Output.assemble labels (computations.map (·.name)) ended.2.slots
        return { output, stats := ended.2.stats }) := by
  intro execution
  have hnames : (computations.map logged).map (·.name) = computations.map (·.name) := by
    simp [logged, Function.comp_def]
  rw [← beginning_logged] at h
  obtain ⟨requests, hexecute⟩ := execute_of_beginning_ok h (client, []) aborted
  rw [hnames, List.length_map] at hexecute
  have hexecution : execution = _ :=
    (q.execute_logged connection config computations client [] aborted).symm
  rw [hexecute] at hexecution
  obtain ⟨made, hended⟩ := TraversalM.exec_run_start_ended computations rendered.columns
    rendered.groups.length labels client aborted
    (connection.fetch rendered.sql config.chunkSize.toNat)
  generalize TraversalM.exec _ _ = ended at hexecute hexecution hended
  refine ⟨made, ended, ?_, ?_, ?_, ?_, ?_⟩
  · rw [calls, hexecute]
    exact congrArg Prod.snd hended.hasMade.client_eq
  · rw [hexecution]
    exact congrArg Prod.fst hended.hasMade.client_eq
  · rw [hexecution]
    exact hended.hasMade.aborted_eq
  · rw [hexecution]
    exact hended
  · rw [hexecution]
    rfl

theorem exists_course {rendered : Rendered} {labels : RowSet}
    (h : q.beginning connection config computations = .ok (rendered, labels)) (client : σ)
    (aborted : Bool) :
    let execution := q.execute connection config computations client aborted
    ∃ made ended,
      q.calls connection config computations client aborted =
        made.map (fun x => (x.1.name, x.2)) ∧
      execution.client = (replay made client).1 ∧
      execution.aborted = asked aborted made client ∧
      Course computations rendered.columns client aborted (due connection config rendered labels)
        made ended ∧
      Concludes ended execution.outcome := by
  intro execution
  obtain ⟨made, ended, hcalled, hclient, haborted, hended, houtcome⟩ :=
    exists_ended h client aborted
  refine ⟨made, ended.1, hcalled, hclient, haborted, hended.course, ?_⟩
  rw [houtcome]
  exact concludes_assemble ..

end Query

end SqlChain
