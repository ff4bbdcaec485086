import SqlChain.Proofs.Group.Execution

/-!
# Traversals seen through a map

A step simulates another one along a map of traversals if it does to what the map makes of a
traversal what the other step does to the traversal itself. There is a rule for every way in which
steps are put together. A map is a view if it keeps what the steps that give groups to the
computations read, and all of these steps are then simulated along it.

Two views are put to use. A traversal can be moved to another place of its rows, and calls that the
computations write down can be forgotten.
-/

namespace SqlChain

variable {σ τ ω α β : Type}

namespace TraversalM

/-- The second step does to the view of a traversal what the first one does to the traversal. -/
def Simulates (f : Traversal τ ω → Traversal σ ω) (m : TraversalM τ ω α) (n : TraversalM σ ω α) :
    Prop :=
  ∀ t, exec n (f t) = Prod.map id f (exec m t)

namespace Simulates

variable {f : Traversal τ ω → Traversal σ ω}

theorem pure (a : α) : Simulates f (pure a) (pure a) := fun _ => rfl

theorem throw (e : Error) : Simulates (α := α) f (throw e) (throw e) := fun _ => rfl

theorem modify {g : Traversal τ ω → Traversal τ ω} {h : Traversal σ ω → Traversal σ ω}
    (hgh : ∀ t, h (f t) = f (g t)) : Simulates f (modify g) (modify h) := by
  intro t
  simp [hgh]

theorem bind {m : TraversalM τ ω α} {n : TraversalM σ ω α} {k : α → TraversalM τ ω β}
    {l : α → TraversalM σ ω β} (hmn : Simulates f m n) (hkl : ∀ a, Simulates f (k a) (l a)) :
    Simulates f (m >>= k) (n >>= l) := by
  intro t
  rw [exec_bind, exec_bind, hmn t]
  rcases exec m t with ⟨_ | a, next⟩
  · rfl
  · exact hkl a next

/-- The step that follows may depend on the traversal. -/
theorem get_bind {k : Traversal τ ω → TraversalM τ ω β} {l : Traversal σ ω → TraversalM σ ω β}
    (hkl : ∀ t, exec (l (f t)) (f t) = Prod.map id f (exec (k t) t)) :
    Simulates f (get >>= k) (get >>= l) := by
  intro t
  rw [exec_bind, exec_bind]
  exact hkl t

/-- What the second step comes to is seen of what the first one comes to. -/
theorem exists_of_ok {m : TraversalM τ ω α} {n : TraversalM σ ω α} (h : Simulates f m n)
    {t : Traversal τ ω} {a : α} {next : Traversal σ ω} (hexec : exec n (f t) = (.ok a, next)) :
    ∃ s, exec m t = (.ok a, s) ∧ f s = next := by
  rw [h t] at hexec
  rcases hm : exec m t with ⟨answer, s⟩
  rw [hm] at hexec
  cases hexec
  exact ⟨s, rfl, rfl⟩

end Simulates

end TraversalM

open TraversalM (Simulates)

/-- The map keeps what is read of a traversal when a group is given to the computations, and a call
does to the view what it does to the traversal. -/
structure IsView (f : Traversal τ ω → Traversal σ ω) (computations : List (Computation τ ω))
    (others : List (Computation σ ω)) : Prop where
  columns_eq : ∀ t, (f t).columns = t.columns
  labels_eq : ∀ t, (f t).labels = t.labels
  next_eq : ∀ t, (f t).next = t.next
  aborted_eq : ∀ t, (f t).aborted = t.aborted
  advance : ∀ t : Traversal τ ω,
    ({ f t with
      next := (f t).next + 1
      stats := { (f t).stats with groups := (f t).stats.groups + 1 } } : Traversal σ ω) =
        f { t with next := t.next + 1, stats := { t.stats with groups := t.stats.groups + 1 } }
  enter : ∀ phase, Simulates f (TraversalM.enter phase) (TraversalM.enter phase)
  calls : List.Forall₂ (fun c d => ∀ group i,
    Simulates f (TraversalM.call group i c) (TraversalM.call group i d)) computations others

namespace IsView

variable {f : Traversal τ ω → Traversal σ ω} {computations : List (Computation τ ω)}
  {others : List (Computation σ ω)}

theorem callAll (h : IsView f computations others) (group : Group) (i : Nat) :
    Simulates f (TraversalM.callAll group i computations)
      (TraversalM.callAll group i others) := by
  have hcalls := h.calls
  clear h
  induction hcalls generalizing i with
  | nil => exact .pure ()
  | cons hcall _ ih => exact (hcall group i).bind fun _ => ih (i + 1)

theorem dispatch (h : IsView f computations others) (run : Run) :
    Simulates f (TraversalM.dispatch computations run) (TraversalM.dispatch others run) := by
  refine .get_bind fun t => ?_
  rw [h.aborted_eq, h.labels_eq, h.next_eq, h.columns_eq]
  cases t.aborted with
  | true => rfl
  | false =>
      cases t.labels.rows[t.next]? with
      | none => rfl
      | some label =>
          cases hk : GroupKey.equal label run.key with
          | false => simp [hk]
          | true =>
              simp only [hk, Bool.not_true, Bool.false_eq_true, if_false]
              refine ((h.callAll _ 0).bind fun _ => .modify fun t => ?_) t
              exact h.advance t

theorem dispatchAll (h : IsView f computations others) (runs : List Run) :
    Simulates f (TraversalM.dispatchAll computations runs)
      (TraversalM.dispatchAll others runs) := by
  induction runs with
  | nil => exact .pure ()
  | cons run runs ih =>
      exact (h.enter .groupComplete).bind fun _ => (h.dispatch run).bind fun _ => ih

theorem finish (h : IsView f computations others) (last : Option Run) :
    Simulates f (TraversalM.finish computations last) (TraversalM.finish others last) := by
  have hlast : Simulates f (TraversalM.finish.dispatchLast computations last)
      (TraversalM.finish.dispatchLast others last) := by
    cases last with
    | none => exact .pure ()
    | some run => exact h.dispatch run
  refine hlast.bind fun _ => .get_bind fun t => ?_
  rw [h.next_eq, h.labels_eq]
  by_cases hcount : t.next = t.labels.rows.length
  · simpa [hcount, TraversalM.exec_bind] using h.enter .done t
  · simp [hcount]

end IsView

/-! ## Another place of the rows -/

/-- The traversal with other rows behind it. -/
def Traversal.atRows (carry : Carry) (pages rows : Nat) (t : Traversal σ ω) : Traversal σ ω :=
  { t with carry, stats := { pages, rows, groups := t.stats.groups } }

theorem isView_atRows (carry : Carry) (pages rows : Nat) (computations : List (Computation σ ω)) :
    IsView (Traversal.atRows carry pages rows) computations computations where
  columns_eq _ := rfl
  labels_eq _ := rfl
  next_eq _ := rfl
  aborted_eq _ := rfl
  advance _ := rfl
  enter _ := .modify fun _ => rfl
  calls := by
    refine List.forall₂_same.2 fun c _ group i t => ?_
    simp only [TraversalM.exec_call, Traversal.atRows]
    cases (c.run group t.client).value <;> rfl

/-! ## Calls that are written down -/

/-- Which computation was called, by its name, and on which group. -/
abbrev Call := Option String × Group

/-- The computation, which also writes down that it was called. -/
def Computation.logged (c : Computation σ ω) : Computation (σ × List Call) ω where
  name := c.name
  run group s :=
    let reply := c.run group s.1
    { value := reply.value, state := (reply.state, s.2 ++ [(c.name, group)]), abort := reply.abort }

/-- The traversal without the calls that were written down. -/
def Traversal.withoutLog (t : Traversal (σ × List Call) ω) : Traversal σ ω :=
  { t with client := t.client.1 }

theorem Traversal.withoutLog_start (columns : List String) (keys computations : Nat)
    (labels : RowSet) (client : σ) (log : List Call) (aborted : Bool) :
    (start columns keys computations labels (client, log) aborted : Traversal _ ω).withoutLog =
      start columns keys computations labels client aborted := rfl

theorem isView_withoutLog (computations : List (Computation σ ω)) :
    IsView Traversal.withoutLog (computations.map Computation.logged) computations where
  columns_eq _ := rfl
  labels_eq _ := rfl
  next_eq _ := rfl
  aborted_eq _ := rfl
  advance _ := rfl
  enter _ := .modify fun _ => rfl
  calls := by
    refine List.forall₂_map_left_iff.2 (List.forall₂_same.2 fun c _ group i t => ?_)
    simp only [TraversalM.exec_call, Traversal.withoutLog, Computation.logged]
    cases (c.run group t.client.1).value <;> rfl

namespace TraversalM

variable (computations : List (Computation σ ω))

theorem simulates_onPage_logged (page : RowSet) :
    Simulates Traversal.withoutLog (onPage (computations.map Computation.logged) page)
      (onPage computations page) := by
  intro t
  have hcarry : t.withoutLog.carry = t.carry := rfl
  rw [Traversal.Follows.exec_onPage_eq, Traversal.Follows.exec_onPage_eq, hcarry]
  rcases t.carry.pushPage page.rows with ⟨e | runs, carry⟩
  · rfl
  · have hview := isView_withoutLog computations
    have hgive := (hview.dispatchAll runs).bind fun _ => hview.enter .fetching
    exact hgive { t with
      carry := carry
      stats := { pages := t.stats.pages + 1, rows := t.stats.rows + page.rows.length,
                 groups := t.stats.groups } }

theorem simulates_onPages_logged (pages : List RowSet) :
    Simulates Traversal.withoutLog (pages.forM (onPage (computations.map Computation.logged)))
      (pages.forM (onPage computations)) := by
  induction pages with
  | nil => exact .pure _
  | cons page pages ih => exact (simulates_onPage_logged computations page).bind fun _ => ih

theorem simulates_takePages_logged (feed : Feed) :
    Simulates Traversal.withoutLog
      (Query.takePages (computations.map Computation.logged) feed)
      (Query.takePages computations feed) := by
  rcases feed with ⟨pages, failure⟩
  refine (simulates_onPages_logged computations pages).bind fun _ => ?_
  cases failure with
  | none => exact .pure ()
  | some reason => exact .throw _

theorem simulates_drain_logged :
    Simulates Traversal.withoutLog (drain (computations.map Computation.logged))
      (drain computations) := by
  intro t
  rw [exec_drain, exec_drain]
  exact (isView_withoutLog computations).finish t.last
    { t with phase := .draining, carry := t.carry.drain.2 }

end TraversalM

theorem TraversalM.simulates_run_logged (computations : List (Computation σ ω)) (feed : Feed) :
    Simulates Traversal.withoutLog (run (computations.map Computation.logged) feed)
      (run computations feed) :=
  (simulates_takePages_logged computations feed).bind fun _ => simulates_drain_logged computations

/-- What a traversal leaves behind, after these requests. -/
def Execution.ofRun (requests : List Request) (labels : RowSet) (names : List (Option String))
    (run : Except Error Unit × Traversal σ ω) : Execution σ ω where
  requests := requests
  pages := run.2.stats.pages
  client := run.2.client
  aborted := run.2.aborted
  outcome := do
    run.1
    let output ← Output.assemble labels names run.2.slots
    return { output, stats := run.2.stats }

def Execution.withoutLog (execution : Execution (σ × List Call) ω) : Execution σ ω :=
  { execution with client := execution.client.1 }

namespace Query

theorem traverse_eq_ofRun (connection : Connection) (config : Config) (rows : Rendered)
    (computations : List (Computation σ ω)) (labels : RowSet) (sent : List Request) (client : σ)
    (aborted : Bool) :
    traverse connection config rows computations labels sent client aborted =
      .ofRun (sent ++ [.fetch rows.sql config.chunkSize.toNat]) labels (computations.map (·.name))
        (TraversalM.exec
          (TraversalM.run computations (connection.fetch rows.sql config.chunkSize.toNat))
          (.start rows.columns rows.groups.length computations.length labels client aborted)) :=
  rfl

theorem traverse_logged (connection : Connection) (config : Config) (rows : Rendered)
    (computations : List (Computation σ ω)) (labels : RowSet) (sent : List Request) (client : σ)
    (log : List Call) (aborted : Bool) :
    (traverse connection config rows (computations.map Computation.logged) labels sent
      (client, log) aborted).withoutLog =
        traverse connection config rows computations labels sent client aborted := by
  have hnames : (computations.map Computation.logged).map (·.name) = computations.map (·.name) := by
    simp [Computation.logged, Function.comp_def]
  rw [traverse_eq_ofRun, traverse_eq_ofRun, ← Traversal.withoutLog_start _ _ _ _ client log,
    TraversalM.simulates_run_logged, hnames, List.length_map]
  rfl

/-- Writing the calls down changes nothing else. -/
theorem execute_logged (q : Query) (connection : Connection) (config : Config)
    (computations : List (Computation σ ω)) (client : σ) (log : List Call) (aborted : Bool) :
    (q.execute connection config (computations.map Computation.logged) (client, log)
      aborted).withoutLog = q.execute connection config computations client aborted := by
  have hnames : (computations.map Computation.logged).map (·.name) = computations.map (·.name) := by
    simp [Computation.logged, Function.comp_def]
  have hstatements : q.statements connection.dialect config (computations.map Computation.logged) =
      q.statements connection.dialect config computations := by
    rw [statements, statements, hnames]
  rw [execute, execute, hstatements]
  rcases q.statements connection.dialect config computations with e | ⟨rows, _ | labels⟩
  · rfl
  · exact traverse_logged ..
  · cases hlabels : connection.execute labels.sql with
    | error reason => simp only [hlabels, Execution.withoutLog]
    | ok table =>
        simp only [hlabels]
        exact traverse_logged ..

end Query

end SqlChain
