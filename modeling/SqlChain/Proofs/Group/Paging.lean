import SqlChain.Proofs.Building
import SqlChain.Proofs.Chain.PageSize
import SqlChain.Proofs.Group.Carry
import SqlChain.Proofs.Group.View

/-!
# How rows are cut into pages

Taking pages one by one does what taking one page with all of their rows does, as far as both
succeed or fail and apart from the number of pages that are counted. Two cuts of the same rows are
therefore alike, whatever the computations do: a group may be released by an earlier page or a later
one, and a row that comes out of order may be seen before or after a computation fails, but the runs
that are given to the computations are the same.
-/

namespace SqlChain

variable {σ ω : Type}

/-- The rows come in some pages, and nothing goes wrong. -/
structure Feed.Delivers (feed : Feed) (rows : List Row) : Prop where
  failure_eq : feed.failure = none
  rows_eq : feed.pages.flatMap RowSet.rows = rows

/-- The traversal apart from the number of pages. -/
def Traversal.unpaged (t : Traversal σ ω) : Traversal σ ω :=
  { t with phase := .fetching, stats := { t.stats with pages := 0 } }

theorem Traversal.eq_of_unpaged_eq {t t' : Traversal σ ω} (h : t.unpaged = t'.unpaged) :
    t' = { t with phase := t'.phase, stats := { t.stats with pages := t'.stats.pages } } := by
  rcases t with ⟨_, _, _, _, _, _, ⟨_, _, _⟩, _, _⟩
  rcases t' with ⟨_, _, _, _, _, _, ⟨_, _, _⟩, _, _⟩
  simp only [unpaged, mk.injEq, Stats.mk.injEq] at h ⊢
  tauto

namespace TraversalM

variable {computations : List (Computation σ ω)}

/-- Give runs to the computations, and go on with the next page. -/
def give (computations : List (Computation σ ω)) (runs : List Run) : TraversalM σ ω Unit := do
  dispatchAll computations runs
  enter .fetching

theorem exec_give_of_phase (phase : Phase) (runs : List Run) (t : Traversal σ ω) :
    exec (give computations runs) { t with phase } = exec (give computations runs) t := by
  cases runs <;> rfl

theorem exec_give_append (runs more : List Run) (t : Traversal σ ω) :
    exec (give computations (runs ++ more)) t =
      exec (do give computations runs; give computations more) t := by
  induction runs generalizing t with
  | nil => exact (exec_give_of_phase .fetching more t).symm
  | cons run runs ih =>
      simp only [give, dispatchAll, List.cons_append, exec_bind, exec_enter] at ih ⊢
      rcases exec (dispatch computations run) { t with phase := .groupComplete } with ⟨_ | _, next⟩
      · rfl
      · exact ih next

/-- Where the rows are makes no difference to the runs that are given. -/
theorem simulates_give (carry : Carry) (pages rows : Nat) (runs : List Run) :
    Simulates (Traversal.atRows carry pages rows) (give computations runs)
      (give computations runs) := by
  have hview := isView_atRows carry pages rows computations
  exact (hview.dispatchAll runs).bind fun _ => hview.enter .fetching

section

variable (computations) (page : RowSet) {t : Traversal σ ω} {carry : Carry}

theorem exec_onPage_of_error {e : Error} (h : t.carry.pushPage page.rows = (.error e, carry)) :
    ∃ next, exec (onPage computations page) t = (.error e, next) := by
  rw [Traversal.Follows.exec_onPage_eq, h]
  exact ⟨_, rfl⟩

theorem exec_onPage_of_ok {runs : List Run} (h : t.carry.pushPage page.rows = (.ok runs, carry)) :
    exec (onPage computations page) t =
      Prod.map id (.atRows carry (t.stats.pages + 1) (t.stats.rows + page.rows.length))
        (exec (give computations runs) t) := by
  rw [Traversal.Follows.exec_onPage_eq, h]
  exact simulates_give carry _ _ runs t

end

/-- Both runs fail, or both succeed and leave traversals that differ in the number of pages. -/
inductive Alike : Except Error Unit × Traversal σ ω → Except Error Unit × Traversal σ ω → Prop where
  | failed (e e' : Error) (t t' : Traversal σ ω) : Alike (.error e, t) (.error e', t')
  | ended {t t' : Traversal σ ω} (h : t.unpaged = t'.unpaged) : Alike (.ok (), t) (.ok (), t')

namespace Alike

variable {a b c : Except Error Unit × Traversal σ ω} {t : Traversal σ ω}

theorem symm (h : Alike a b) : Alike b a := by
  cases h with
  | failed e e' t t' => exact .failed e' e t' t
  | ended h => exact .ended h.symm

theorem trans (hab : Alike a b) (hbc : Alike b c) : Alike a c := by
  cases hab with
  | failed e _ t _ =>
      cases hbc with
      | failed _ e' _ t' => exact .failed e e' t t'
  | ended hab =>
      cases hbc with
      | ended hbc => exact .ended (hab.trans hbc)

/-- Alike steps after the same step. -/
theorem bind {m : TraversalM σ ω Unit} {k l : Unit → TraversalM σ ω Unit}
    (h : ∀ next, Alike (exec (k ()) next) (exec (l ()) next)) :
    Alike (exec (m >>= k) t) (exec (m >>= l) t) := by
  rw [exec_bind, exec_bind]
  rcases exec m t with ⟨e | _, next⟩
  · exact .failed e e next next
  · exact h next

theorem of_errors {m n : TraversalM σ ω Unit} {e e' : Error}
    (hm : ∃ next, exec m t = (.error e, next)) (hn : ∃ next, exec n t = (.error e', next)) :
    Alike (exec m t) (exec n t) := by
  obtain ⟨next, hm⟩ := hm
  obtain ⟨next', hn⟩ := hn
  rw [hm, hn]
  exact .failed e e' next next'

/-- Runs that begin at different pages of the same rows are alike if what they do is the same. -/
theorem atRows (a : Except Error Unit × Traversal σ ω) (carry : Carry) (pages pages' rows : Nat) :
    Alike (Prod.map id (.atRows carry pages rows) a) (Prod.map id (.atRows carry pages' rows) a) := by
  rcases a with ⟨e | _, next⟩
  · exact .failed ..
  · exact .ended rfl

/-- A page that is refused is refused also when it is put behind another one. -/
theorem onPage_onPage_of_error (columns : List String) {page next : RowSet} {runs : List Run}
    {carry last : Carry} {e : Error} (hpage : t.carry.pushPage page.rows = (.ok runs, carry))
    (hnext : carry.pushPage next.rows = (.error e, last)) :
    Alike (exec (do onPage computations page; onPage computations next) t)
      (exec (onPage computations ⟨columns, page.rows ++ next.rows⟩) t) := by
  have hboth : t.carry.pushPage (page.rows ++ next.rows) = (.error e, last) := by
    simp only [Carry.pushPage_append, hpage, hnext]
    rfl
  obtain ⟨_, hexec⟩ := exec_onPage_of_error computations ⟨columns, page.rows ++ next.rows⟩ hboth
  rw [exec_bind, exec_onPage_of_ok computations page hpage, hexec]
  rcases exec (give computations runs) t with ⟨e' | _, between⟩
  · exact .failed ..
  · obtain ⟨_, hrefused⟩ := exec_onPage_of_error computations next
      (t := between.atRows carry (t.stats.pages + 1) (t.stats.rows + page.rows.length)) hnext
    simp only [Prod.map, id, hrefused]
    exact .failed ..

theorem onPage_onPage_of_ok (columns : List String) {page next : RowSet} {runs more : List Run}
    {carry last : Carry} (hpage : t.carry.pushPage page.rows = (.ok runs, carry))
    (hnext : carry.pushPage next.rows = (.ok more, last)) :
    Alike (exec (do onPage computations page; onPage computations next) t)
      (exec (onPage computations ⟨columns, page.rows ++ next.rows⟩) t) := by
  have hboth : t.carry.pushPage (page.rows ++ next.rows) = (.ok (runs ++ more), last) := by
    simp only [Carry.pushPage_append, hpage, hnext]
    rfl
  rw [exec_bind, exec_onPage_of_ok computations page hpage,
    exec_onPage_of_ok computations ⟨columns, page.rows ++ next.rows⟩ hboth, exec_give_append,
    exec_bind]
  rcases exec (give computations runs) t with ⟨e | _, between⟩
  · exact .failed ..
  · have htaken := exec_onPage_of_ok computations next
      (t := between.atRows carry (t.stats.pages + 1) (t.stats.rows + page.rows.length)) hnext
    simp only [Prod.map, id, htaken]
    rw [simulates_give, List.length_append, ← Nat.add_assoc]
    exact atRows (exec (give computations more) between) last _ _ _

/-- Two pages do what one page with the rows of both does. -/
theorem onPage_onPage (columns : List String) (page next : RowSet) (t : Traversal σ ω) :
    Alike (exec (do onPage computations page; onPage computations next) t)
      (exec (onPage computations ⟨columns, page.rows ++ next.rows⟩) t) := by
  rcases hpage : t.carry.pushPage page.rows with ⟨e | runs, carry⟩
  · have hboth : t.carry.pushPage (page.rows ++ next.rows) = (.error e, carry) := by
      rw [Carry.pushPage_append, hpage]
    obtain ⟨between, hexec⟩ := exec_onPage_of_error computations page hpage
    exact of_errors ⟨between, exec_bind_of_error hexec _⟩
      (exec_onPage_of_error computations _ hboth)
  · rcases hnext : carry.pushPage next.rows with ⟨e | more, last⟩
    · exact onPage_onPage_of_error columns hpage hnext
    · exact onPage_onPage_of_ok columns hpage hnext

/-- Pages do what one page with all of their rows does. -/
theorem onPages (columns : List String) (pages : List RowSet) (t : Traversal σ ω) :
    Alike (exec (pages.forM (onPage computations)) t)
      (exec (onPage computations ⟨columns, pages.flatMap RowSet.rows⟩) t) := by
  induction pages generalizing t with
  | nil =>
      have hempty : t.carry.pushPage (RowSet.mk columns []).rows = (.ok [], t.carry) := rfl
      rw [List.flatMap_nil, exec_onPage_of_ok computations _ hempty]
      exact .ended rfl
  | cons page pages ih =>
      exact (Alike.bind fun next => ih next).trans
        (onPage_onPage columns page ⟨columns, pages.flatMap RowSet.rows⟩ t)

/-- What happens when the rows have ended does not depend on the number of pages. -/
theorem drain {t t' : Traversal σ ω} (h : t.unpaged = t'.unpaged) :
    Alike (exec (drain computations) t) (exec (drain computations) t') := by
  have hfinish (pages : Nat) :
      exec (finish computations t.last)
          (.atRows t.carry.drain.2 pages t.stats.rows { t with phase := .draining }) =
        Prod.map id (.atRows t.carry.drain.2 pages t.stats.rows)
          (exec (finish computations t.last) { t with phase := .draining }) :=
    (isView_atRows t.carry.drain.2 pages t.stats.rows computations).finish t.last _
  rw [exec_drain, exec_drain, Traversal.eq_of_unpaged_eq h]
  change Alike (exec (finish computations t.last)
      (.atRows t.carry.drain.2 t.stats.pages t.stats.rows { t with phase := .draining }))
    (exec (finish computations t.last)
      (.atRows t.carry.drain.2 t'.stats.pages t.stats.rows { t with phase := .draining }))
  rw [hfinish, hfinish]
  exact atRows _ _ _ _ _

theorem bind_drain {m n : TraversalM σ ω Unit} (h : Alike (exec m t) (exec n t)) :
    Alike (exec (m >>= fun _ => TraversalM.drain computations) t)
      (exec (n >>= fun _ => TraversalM.drain computations) t) := by
  rw [exec_bind, exec_bind]
  revert h
  rcases exec m t with ⟨e | _, next⟩ <;> rcases exec n t with ⟨e' | _, next'⟩ <;> intro h <;> cases h
  · exact .failed ..
  · exact drain ‹_›

end Alike

/-- Two cuts of the same rows are alike. -/
theorem alike_run {front back : Feed} {rows : List Row} (hfront : front.Delivers rows)
    (hback : back.Delivers rows) (t : Traversal σ ω) :
    Alike (exec (run computations front) t) (exec (run computations back) t) := by
  have htake {feed : Feed} (h : feed.Delivers rows) :
      Alike (exec (Query.takePages computations feed) t)
        (exec (onPage computations ⟨[], rows⟩) t) := by
    have hexec : exec (Query.takePages computations feed) t =
        exec (feed.pages.forM (onPage computations)) t := by
      rw [Query.takePages, exec_bind, h.failure_eq]
      rcases exec (feed.pages.forM (onPage computations)) t with ⟨e | _, next⟩ <;> rfl
    rw [hexec, ← h.rows_eq]
    exact .onPages [] feed.pages t
  exact ((htake hfront).trans (htake hback).symm).bind_drain

end TraversalM

namespace Query

/-- The calls that an execution makes, in order. -/
def calls (q : Query) (connection : Connection) (config : Config)
    (computations : List (Computation σ ω)) (client : σ) (aborted : Bool) : List Call :=
  (q.execute connection config (computations.map Computation.logged) (client, [])
    aborted).client.2

/-- Both executions fail, or both succeed with results that differ in the number of pages. -/
def Agree (left right : Execution σ ω) : Prop :=
  ((∃ e, left.outcome = .error e) ∧ ∃ e, right.outcome = .error e) ∨
    ∃ result other, left.outcome = .ok result ∧ right.outcome = .ok other ∧
      result.output = other.output ∧ result.stats.rows = other.stats.rows ∧
      result.stats.groups = other.stats.groups ∧ left.client = right.client

theorem agree_ofRun {left right : Except Error Unit × Traversal σ ω}
    (h : TraversalM.Alike left right) (requests more : List Request) (labels : RowSet)
    (names : List (Option String)) :
    Agree (.ofRun requests labels names left) (.ofRun more labels names right) := by
  cases h with
  | failed e e' t t' => exact .inl ⟨⟨e, rfl⟩, ⟨e', rfl⟩⟩
  | @ended t t' h =>
      rw [Traversal.eq_of_unpaged_eq h]
      cases houtput : Output.assemble labels names t.slots with
      | error e =>
          left
          refine ⟨⟨e, ?_⟩, ⟨e, ?_⟩⟩ <;>
            simp [Execution.ofRun, houtput, bind, Except.bind]
      | ok output =>
          right
          refine ⟨{ output, stats := t.stats },
            { output, stats := { t.stats with pages := t'.stats.pages } }, ?_, ?_, rfl, rfl, rfl,
            rfl⟩ <;>
            simp [Execution.ofRun, houtput, bind, Except.bind, pure, Except.pure]

theorem render_of_statements {q : Query} {dialect : Dialect} {config : Config}
    {computations : List (Computation σ ω)} {s : Statements}
    (h : q.statements dialect config computations = .ok s) :
    q.render .groups dialect config = .ok s.rows := by
  obtain ⟨_, _, h⟩ := exists_of_bind_eq_ok h
  obtain ⟨_, _, h⟩ := exists_of_bind_eq_ok h
  obtain ⟨rows, hrows, h⟩ := exists_of_bind_eq_ok h
  split at h
  · cases h
    exact hrows
  · obtain ⟨labels, _, h⟩ := exists_of_bind_eq_ok h
    cases h
    exact hrows

section

variable (q : Query) (connection : Connection) (config : Config) (fetch : String → Nat → Feed)
  (chunkSize : UInt64) (computations : List (Computation σ ω)) (client : σ) (aborted : Bool)

theorem agree_execute (hconfig : config.validate = .ok ())
    (hchunks : { config with chunkSize }.validate = .ok ())
    (hfeeds : ∀ rendered, q.render .groups connection.dialect config = .ok rendered →
      ∃ rows, (connection.fetch rendered.sql config.chunkSize.toNat).Delivers rows ∧
        (fetch rendered.sql chunkSize.toNat).Delivers rows) :
    Agree (q.execute connection config computations client aborted)
      (q.execute { connection with fetch } { config with chunkSize } computations client
        aborted) := by
  have hstatements : q.statements connection.dialect { config with chunkSize } computations =
      q.statements connection.dialect config computations := by
    simp only [statements, render_withChunkSize, hconfig, hchunks]
  have htraverse (s : Statements) (labels : RowSet) (sent : List Request)
      (hs : q.statements connection.dialect config computations = .ok s) :
      Agree (traverse connection config s.rows computations labels sent client aborted)
        (traverse { connection with fetch } { config with chunkSize } s.rows computations labels
          sent client aborted) := by
    obtain ⟨rows, hfront, hback⟩ := hfeeds s.rows (render_of_statements hs)
    rw [traverse_eq_ofRun, traverse_eq_ofRun]
    exact agree_ofRun (TraversalM.alike_run hfront hback _) _ _ _ _
  rw [execute, execute, hstatements]
  cases hs : q.statements connection.dialect config computations with
  | error e => exact .inl ⟨⟨e, rfl⟩, ⟨e, rfl⟩⟩
  | ok s =>
      rcases s with ⟨rows, _ | labels⟩
      · exact htraverse _ singleLabel [] hs
      · cases hlabels : connection.execute labels.sql with
        | error reason =>
            simp only [hlabels]
            exact .inl ⟨⟨_, rfl⟩, ⟨_, rfl⟩⟩
        | ok table =>
            simp only [hlabels]
            exact htraverse _ table _ hs

/-- The page size never affects the result. However the rows of a query are cut into pages, either
both executions fail, or both make the same calls and come to the same output. -/
theorem execute_agrees (hconfig : config.validate = .ok ())
    (hchunks : { config with chunkSize }.validate = .ok ())
    (hfeeds : ∀ rendered, q.render .groups connection.dialect config = .ok rendered →
      ∃ rows, (connection.fetch rendered.sql config.chunkSize.toNat).Delivers rows ∧
        (fetch rendered.sql chunkSize.toNat).Delivers rows) :
    let left := q.execute connection config computations client aborted
    let right := q.execute { connection with fetch } { config with chunkSize } computations client
      aborted
    ((∃ e, left.outcome = .error e) ∧ ∃ e, right.outcome = .error e) ∨
      ∃ result other, left.outcome = .ok result ∧ right.outcome = .ok other ∧
        result.output = other.output ∧ result.stats.rows = other.stats.rows ∧
        result.stats.groups = other.stats.groups ∧ left.client = right.client ∧
        q.calls connection config computations client aborted =
          q.calls { connection with fetch } { config with chunkSize } computations client
            aborted := by
  intro left right
  have hleft := q.execute_logged connection config computations client [] aborted
  have hright := q.execute_logged { connection with fetch } { config with chunkSize } computations
    client [] aborted
  have hagree := q.agree_execute connection config fetch chunkSize
    (computations.map Computation.logged) (client, []) aborted hconfig hchunks hfeeds
  subst left right
  rw [← hleft, ← hright]
  rcases hagree with hfailed | ⟨result, other, hresult, hother, houtput, hrows, hgroups, hclient⟩
  · exact .inl hfailed
  · right
    refine ⟨result, other, hresult, hother, houtput, hrows, hgroups, ?_, ?_⟩
    · exact congrArg Prod.fst hclient
    · exact congrArg Prod.snd hclient

end

/-- Rows in one page and in pages of two, for a computation that counts its calls and asks for the
traversal to be cancelled at the last group, and for one that fails on groups of more than three
rows. -/
theorem execute_agrees_pages_of_two :
    let q : Query :=
      { source := { schema := none, name := "t", columns := ["g", "v"] }
        ops := [.groupBy ["g"] false] }
    let rows : List Row :=
      [[.utf8 "a", .int64 1], [.utf8 "a", .int64 2], [.utf8 "a", .int64 3], [.null, .int64 4]]
    let connection : Connection :=
      { dialect := Dialect.ansi
        execute := fun _ => .ok { columns := ["g"], rows := [[.utf8 "a"], [.null]] }
        fetch := fun _ n =>
          { pages := (rows.toChunks n).map fun page => { columns := ["g", "v"], rows := page }
            failure := none } }
    let count : Computation Nat Empty :=
      { name := some "m"
        run := fun group calls =>
          { value := .ok (.table group.rows), state := calls + 1, abort := group.index == 1 } }
    let refuse : Computation Nat Empty :=
      { name := some "n"
        run := fun group calls =>
          if 3 < group.rows.rows.length then { value := .error "", state := calls, abort := false }
          else { value := .ok (.table group.rows), state := calls, abort := false } }
    let left := q.execute connection .default [count, refuse] 0 false
    let right := q.execute connection { Config.default with chunkSize := 2 } [count, refuse] 0 false
    (∃ result other, left.outcome = .ok result ∧ right.outcome = .ok other ∧
      result.output = other.output ∧ result.stats.pages = 1 ∧ other.stats.pages = 2) ∧
    q.calls connection .default [count, refuse] 0 false =
      q.calls connection { Config.default with chunkSize := 2 } [count, refuse] 0 false := by
  intro q rows connection count refuse left right
  have hfeed (n : Nat) (hn : (rows.toChunks n).flatten = rows) (sql : String) :
      (connection.fetch sql n).Delivers rows := by
    refine ⟨rfl, ?_⟩
    subst connection
    simpa [List.flatMap_map] using hn
  have hleft : left.outcome.toOption.map (·.stats.pages) = some 1 := by decide +kernel
  have hright : right.outcome.toOption.map (·.stats.pages) = some 2 := by decide +kernel
  have hagree := q.execute_agrees connection .default connection.fetch 2 [count, refuse] 0 false
    rfl rfl fun rendered _ => ⟨rows, hfeed _ (by decide) _, hfeed _ (by decide) _⟩
  rcases hagree with ⟨⟨e, he⟩, _⟩ | ⟨result, other, hresult, hother, houtput, _, _, _, hcalls⟩
  · rw [show left.outcome = .error e from he] at hleft
    cases hleft
  · rw [show left.outcome = .ok result from hresult] at hleft
    rw [show right.outcome = .ok other from hother] at hright
    exact ⟨⟨result, other, hresult, hother, houtput, Option.some.inj hleft, Option.some.inj hright⟩,
      hcalls⟩

end Query

end SqlChain
