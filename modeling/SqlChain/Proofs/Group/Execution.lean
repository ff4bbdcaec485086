import SqlChain.Proofs.Group.Carry
import SqlChain.Proofs.Group.Dispatch

/-!
# Whole traversals

A traversal is followed page by page. It goes on as long as the rows so far are `Acceptable`: all of
them have a key, the keys come in order, and the runs that have ended are the first of the labels.
It ends well exactly when all runs are the labels, and has then made the calls of
`Computation.calls`.
-/

namespace SqlChain

namespace Run

/-- The runs of the rows. Where nothing is grouped there is one run even if there are no rows. -/
def groups (keys : Nat) (rows : List Row) : List Run :=
  if keys = 0 ∧ rows = [] then [⟨[], []⟩] else split keys rows

end Run

/-- The keys of the runs are the first of the labels. -/
def Matches (labels : List Row) (runs : List Run) : Prop :=
  ∀ (i : Nat) (run : Run), runs[i]? = some run →
    ∃ label, labels[i]? = some label ∧ GroupKey.equal label run.key = true

namespace Matches

variable {labels : List Row} {runs more : List Run}

theorem of_append (h : Matches labels (runs ++ more)) : Matches labels runs := by
  intro i run hrun
  have hi : i < runs.length := (List.getElem?_eq_some_iff.1 hrun).1
  exact h i run (by rwa [List.getElem?_append_left hi])

theorem concat_iff {run : Run} :
    Matches labels (runs ++ [run]) ↔ Matches labels runs ∧
      ∃ label, labels[runs.length]? = some label ∧ GroupKey.equal label run.key = true := by
  constructor
  · intro h
    exact ⟨h.of_append, h runs.length run (by simp)⟩
  · rintro ⟨h, hlast⟩ i r hr
    rw [List.getElem?_append] at hr
    split at hr
    · exact h i r hr
    · obtain ⟨hi, rfl⟩ := List.getElem?_eq_some_iff.1 hr
      have hlength : i = runs.length := by
        simp at hi
        omega
      simpa [hlength] using hlast

/-- All of the labels are the keys of the runs. -/
theorem forall₂_iff :
    List.Forall₂ (fun label run => GroupKey.equal label run.key = true) labels runs ↔
      labels.length = runs.length ∧ Matches labels runs := by
  rw [List.forall₂_iff_get]
  refine and_congr_right fun hlength => ⟨?_, ?_⟩
  · intro h i run hrun
    obtain ⟨hi, rfl⟩ := List.getElem?_eq_some_iff.1 hrun
    exact ⟨labels[i], List.getElem?_eq_getElem _, h i (hlength ▸ hi) hi⟩
  · intro h i hl hr
    obtain ⟨label, hlabel, hk⟩ := h i runs[i] (List.getElem?_eq_getElem _)
    obtain ⟨_, rfl⟩ := List.getElem?_eq_some_iff.1 hlabel
    exact hk

end Matches

/-- What a traversal needs of the rows so far in order to go on. -/
structure Acceptable (keys : Nat) (labels rows : List Row) : Prop where
  wide : ∀ row ∈ rows, keys ≤ row.length
  inOrder : InOrder keys rows
  isLabelled : Matches labels (Run.split keys rows).dropLast

theorem Acceptable.of_append {keys : Nat} {labels rows more : List Row}
    (h : Acceptable keys labels (rows ++ more)) : Acceptable keys labels rows := by
  refine ⟨fun row hr => h.wide row (List.mem_append_left _ hr), h.inOrder.of_append, ?_⟩
  have hruns := isRuns_split keys rows
  rcases (Run.split keys rows).eq_nil_or_concat' with hnil | ⟨closed, last, hsplit⟩
  · intro i run hrun
    simp [hnil] at hrun
  · rw [hsplit] at hruns ⊢
    obtain ⟨grown, tail, hmore, _⟩ := hruns.exists_append more
    have hlabelled := h.isLabelled
    rw [hmore, List.dropLast_append_of_ne_nil (List.cons_ne_nil _ _)] at hlabelled
    simpa using hlabelled.of_append

section

variable {σ ω : Type} {columns : List String} {keys : Nat} {labels : RowSet}
  {computations : List (Computation σ ω)} {client : σ}

/-- The calls for these runs are made, and their values are in the slots. -/
structure Traversal.Dispatched (columns : List String) (labels : RowSet)
    (computations : List (Computation σ ω)) (client : σ) (t : Traversal σ ω) (done : List Run)
    (values : List (List (GroupValue ω))) : Prop where
  columns_eq : t.columns = columns
  labels_eq : t.labels = labels
  not_aborted : t.aborted = false
  next_eq : t.next = done.length
  groups_eq : t.stats.groups = done.length
  isLabelled : Matches labels.rows done
  replay_eq : Computation.replay
    (Computation.calls computations (Group.ofRuns columns done)) client =
      (t.client, values.flatten.map .ok)
  length_eq : values.length = done.length
  width : ∀ vs ∈ values, vs.length = computations.length
  slots_eq : t.slots = slotsOf computations.length labels.rows.length values

namespace Traversal.Dispatched

variable {t : Traversal σ ω} {done : List Run} {values : List (List (GroupValue ω))}

/-- A run with the next label is given to all computations. -/
theorem dispatch (h : t.Dispatched columns labels computations client done values)
    (hsteady : ∀ c ∈ computations, c.IsSteady) {run : Run}
    (hrun : Matches labels.rows (done ++ [run])) :
    ∃ next vs, TraversalM.exec (TraversalM.dispatch computations run) t = (.ok (), next) ∧
      next.Dispatched columns labels computations client (done ++ [run]) (values ++ [vs]) ∧
      next.carry = t.carry ∧ next.stats.pages = t.stats.pages ∧ next.stats.rows = t.stats.rows := by
  obtain ⟨label, hlabel, hk⟩ := (Matches.concat_iff.1 hrun).2
  have hfree : values.length < labels.rows.length := by
    rw [h.length_eq]
    exact (List.getElem?_eq_some_iff.1 hlabel).1
  obtain ⟨vs, hlength, hmade, hexec⟩ := TraversalM.exec_dispatch_of_label hsteady h.not_aborted
    (by rwa [h.labels_eq, h.next_eq]) hk
  refine ⟨_, vs, hexec, ?_, rfl, rfl, rfl⟩
  refine ⟨h.columns_eq, h.labels_eq, h.not_aborted, ?_, ?_, hrun, ?_, ?_, ?_, ?_⟩
  · simp [h.next_eq]
  · simp [h.groups_eq]
  · have hcalls : Computation.calls computations (Group.ofRuns columns (done ++ [run])) =
        Computation.calls computations (Group.ofRuns columns done) ++ computations.map (·,
          { index := t.next, key := run.key, rows := { columns := t.columns, rows := run.rows } }) := by
      rw [Group.ofRuns_concat, h.next_eq, h.columns_eq]
      simp [Computation.calls]
    rw [hcalls, Computation.replay_append, h.replay_eq, hmade]
    simp
  · simp [h.length_eq]
  · intro ws hws
    rcases List.mem_append.1 hws with hws | hws
    · exact h.width ws hws
    · exact List.mem_singleton.1 hws ▸ hlength
  · rw [h.slots_eq, h.next_eq, ← h.length_eq]
    exact fillFrom_slotsOf hfree h.width hlength

theorem dispatch_refused (h : t.Dispatched columns labels computations client done values)
    {run : Run} (hrun : ¬ Matches labels.rows (done ++ [run])) :
    ∃ e, TraversalM.exec (TraversalM.dispatch computations run) t = (.error e, t) := by
  have hlabel : ¬ ∃ label, t.labels.rows[t.next]? = some label ∧
      GroupKey.equal label run.key = true := by
    rw [h.labels_eq, h.next_eq]
    exact fun hlabel => hrun (Matches.concat_iff.2 ⟨h.isLabelled, hlabel⟩)
  obtain ⟨e, _, hexec⟩ := TraversalM.exec_dispatch_of_no_label h.not_aborted hlabel
  exact ⟨e, hexec⟩

/-- The invariant does not speak of the phase, of the rows and of what is held back. -/
theorem congr (h : t.Dispatched columns labels computations client done values)
    (phase : Phase) (carry : Carry) (pages rows : Nat) :
    ({ t with
      phase := phase
      carry := carry
      stats := { pages, rows, groups := t.stats.groups } } : Traversal σ ω).Dispatched
        columns labels computations client done values :=
  ⟨h.columns_eq, h.labels_eq, h.not_aborted, h.next_eq, h.groups_eq, h.isLabelled, h.replay_eq,
    h.length_eq, h.width, h.slots_eq⟩

theorem enter (h : t.Dispatched columns labels computations client done values) (phase : Phase) :
    ({ t with phase } : Traversal σ ω).Dispatched columns labels computations client done values :=
  h.congr phase t.carry t.stats.pages t.stats.rows

theorem dispatchAll (h : t.Dispatched columns labels computations client done values)
    (hsteady : ∀ c ∈ computations, c.IsSteady) {runs : List Run}
    (hruns : Matches labels.rows (done ++ runs)) :
    ∃ next new, TraversalM.exec (TraversalM.dispatchAll computations runs) t = (.ok (), next) ∧
      next.Dispatched columns labels computations client (done ++ runs) (values ++ new) ∧
      next.carry = t.carry ∧ next.stats.pages = t.stats.pages ∧ next.stats.rows = t.stats.rows := by
  induction runs generalizing t done values with
  | nil => exact ⟨t, [], rfl, by simpa using h, rfl, rfl, rfl⟩
  | cons run runs ih =>
      have hruns' : Matches labels.rows ((done ++ [run]) ++ runs) := by simpa using hruns
      obtain ⟨mid, vs, hexec, hmid, hcarry, hpages, hrows⟩ :=
        (h.enter .groupComplete).dispatch hsteady hruns'.of_append
      obtain ⟨next, new, hrest, hnext, hcarry', hpages', hrows'⟩ := ih hmid hruns'
      refine ⟨next, vs :: new, ?_, by simpa using hnext, hcarry'.trans hcarry,
        hpages'.trans hpages, hrows'.trans hrows⟩
      rw [TraversalM.dispatchAll, TraversalM.exec_bind_of_ok (TraversalM.exec_enter _ _),
        TraversalM.exec_bind_of_ok hexec, hrest]

theorem dispatchAll_refused (h : t.Dispatched columns labels computations client done values)
    (hsteady : ∀ c ∈ computations, c.IsSteady) {runs : List Run}
    (hruns : ¬ Matches labels.rows (done ++ runs)) :
    ∃ e next, TraversalM.exec (TraversalM.dispatchAll computations runs) t = (.error e, next) := by
  induction runs generalizing t done values with
  | nil => exact absurd (by simpa using h.isLabelled) hruns
  | cons run runs ih =>
      rw [TraversalM.dispatchAll, TraversalM.exec_bind_of_ok (TraversalM.exec_enter _ _)]
      by_cases hrun : Matches labels.rows (done ++ [run])
      · obtain ⟨mid, vs, hexec, hmid, _⟩ := (h.enter .groupComplete).dispatch hsteady hrun
        rw [TraversalM.exec_bind_of_ok hexec]
        exact ih hmid (by simpa using hruns)
      · obtain ⟨e, hexec⟩ := (h.enter .groupComplete).dispatch_refused hrun
        exact ⟨e, _, TraversalM.exec_bind_of_error hexec _⟩

end Traversal.Dispatched

/-! ## Pages -/

/-- The state after these rows, which came in so many pages. -/
structure Traversal.Follows (columns : List String) (keys : Nat) (labels : RowSet)
    (computations : List (Computation σ ω)) (client : σ) (t : Traversal σ ω) (rows : List Row)
    (pages : Nat) (done : List Run) (values : List (List (GroupValue ω))) : Prop where
  carry : t.carry.Follows keys rows done
  dispatched : t.Dispatched columns labels computations client done values
  pages_eq : t.stats.pages = pages
  rows_eq : t.stats.rows = rows.length

namespace Traversal.Follows

variable {t : Traversal σ ω} {rows : List Row} {count : Nat} {done : List Run}
  {values : List (List (GroupValue ω))}

theorem start (columns : List String) (keys : Nat) (labels : RowSet)
    (computations : List (Computation σ ω)) (client : σ) :
    (Traversal.start columns keys computations.length labels client false).Follows
      columns keys labels computations client [] 0 [] [] where
  carry := Carry.follows_start keys
  dispatched := by
    refine ⟨rfl, rfl, rfl, rfl, rfl, ?_, rfl, rfl, by simp, ?_⟩
    · intro i run hrun
      simp at hrun
    · simp [Traversal.start, slotsOf]
  pages_eq := rfl
  rows_eq := rfl

theorem exec_onPage_eq (page : RowSet) :
    TraversalM.exec (TraversalM.onPage computations page) t =
      TraversalM.exec (match (t.carry.pushPage page.rows).1 with
        | .error e => throw e
        | .ok runs => do
          TraversalM.dispatchAll computations runs
          TraversalM.enter .fetching)
        { t with
          carry := (t.carry.pushPage page.rows).2
          stats := { pages := t.stats.pages + 1, rows := t.stats.rows + page.rows.length,
                     groups := t.stats.groups } } :=
  rfl

/-- A page after which the rows are acceptable is taken. -/
theorem onPage (h : t.Follows columns keys labels computations client rows count done values)
    (hsteady : ∀ c ∈ computations, c.IsSteady) {page : RowSet}
    (hgood : Acceptable keys labels.rows (rows ++ page.rows)) :
    ∃ next more new, TraversalM.exec (TraversalM.onPage computations page) t = (.ok (), next) ∧
      next.Follows columns keys labels computations client (rows ++ page.rows) (count + 1)
        (done ++ more) (values ++ new) := by
  obtain ⟨runs, carry, hpush, hcarry⟩ := h.carry.pushRows []
    (fun row hr => hgood.wide row (List.mem_append_right _ hr)) hgood.inOrder
  have hruns : Matches labels.rows (done ++ runs) := by
    have hlabelled := hgood.isLabelled
    rw [← hcarry.isRuns.eq_split] at hlabelled
    cases hheld : carry.held with
    | none =>
        rw [hcarry.closed_of_held hheld]
        intro i run hrun
        simp at hrun
    | some run => simpa [hheld] using hlabelled
  obtain ⟨next, new, hexec, hnext, hnextCarry, hpages, hrows⟩ :=
    (h.dispatched.congr t.phase carry (t.stats.pages + 1)
      (t.stats.rows + page.rows.length)).dispatchAll hsteady hruns
  refine ⟨{ next with phase := .fetching }, runs, new, ?_, ?_⟩
  · rw [exec_onPage_eq]
    simp only [Carry.pushPage, hpush, List.reverse_nil, List.nil_append]
    rw [TraversalM.exec_bind_of_ok hexec, TraversalM.exec_enter]
  · refine ⟨?_, hnext.enter .fetching, ?_, ?_⟩
    · rw [hnextCarry]
      exact hcarry
    · rw [hpages, h.pages_eq]
    · rw [hrows, h.rows_eq, List.length_append]

theorem onPage_refused
    (h : t.Follows columns keys labels computations client rows count done values)
    (hsteady : ∀ c ∈ computations, c.IsSteady) {page : RowSet}
    (hrows : ∀ row ∈ rows, keys ≤ row.length)
    (hbad : ¬ Acceptable keys labels.rows (rows ++ page.rows)) :
    ∃ e next, TraversalM.exec (TraversalM.onPage computations page) t = (.error e, next) := by
  rw [exec_onPage_eq]
  by_cases hpage : (∀ row ∈ page.rows, keys ≤ row.length) ∧ InOrder keys (rows ++ page.rows)
  · obtain ⟨runs, carry, hpush, hcarry⟩ := h.carry.pushRows [] hpage.1 hpage.2
    have hruns : ¬ Matches labels.rows (done ++ runs) := by
      intro hruns
      apply hbad
      refine ⟨?_, hpage.2, ?_⟩
      · intro row hr
        rcases List.mem_append.1 hr with hr | hr
        · exact hrows row hr
        · exact hpage.1 row hr
      · rw [← hcarry.isRuns.eq_split]
        cases hheld : carry.held with
        | none =>
            rw [hcarry.closed_of_held hheld]
            intro i run hrun
            simp at hrun
        | some run => simpa using hruns
    obtain ⟨e, next, hexec⟩ := (h.dispatched.congr t.phase carry (t.stats.pages + 1)
      (t.stats.rows + page.rows.length)).dispatchAll_refused hsteady hruns
    refine ⟨e, next, ?_⟩
    simp only [Carry.pushPage, hpush, List.reverse_nil, List.nil_append]
    rw [TraversalM.exec_bind_of_error hexec]
  · obtain ⟨e, he⟩ := h.carry.pushRows_refused [] hpage
    rw [Carry.pushPage, he]
    exact ⟨e, _, TraversalM.exec_throw e _⟩

theorem onPages (h : t.Follows columns keys labels computations client rows count done values)
    (hsteady : ∀ c ∈ computations, c.IsSteady) (pages : List RowSet)
    (hgood : Acceptable keys labels.rows (rows ++ pages.flatMap RowSet.rows)) :
    ∃ next more new,
      TraversalM.exec (pages.forM (TraversalM.onPage computations)) t = (.ok ⟨⟩, next) ∧
      next.Follows columns keys labels computations client (rows ++ pages.flatMap RowSet.rows)
        (count + pages.length) (done ++ more) (values ++ new) := by
  induction pages generalizing t rows count done values with
  | nil => exact ⟨t, [], [], rfl, by simpa using h⟩
  | cons page pages ih =>
      have hgood' : Acceptable keys labels.rows
          ((rows ++ page.rows) ++ pages.flatMap RowSet.rows) := by
        simpa using hgood
      obtain ⟨mid, runs, new, hexec, hmid⟩ := h.onPage hsteady hgood'.of_append
      obtain ⟨next, more, new', hrest, hnext⟩ := ih hmid hgood'
      refine ⟨next, runs ++ more, new ++ new', ?_, ?_⟩
      · rw [List.forM, TraversalM.exec_bind_of_ok hexec, hrest]
      · simpa [Nat.add_assoc, Nat.add_comm 1] using hnext

theorem onPages_refused
    (h : t.Follows columns keys labels computations client rows count done values)
    (hsteady : ∀ c ∈ computations, c.IsSteady) (pages : List RowSet)
    (hrows : Acceptable keys labels.rows rows)
    (hbad : ¬ Acceptable keys labels.rows (rows ++ pages.flatMap RowSet.rows)) :
    ∃ e next,
      TraversalM.exec (pages.forM (TraversalM.onPage computations)) t = (.error e, next) := by
  induction pages generalizing t rows count done values with
  | nil => exact absurd (by simpa using hrows) hbad
  | cons page pages ih =>
      rw [List.forM]
      by_cases hpage : Acceptable keys labels.rows (rows ++ page.rows)
      · obtain ⟨mid, runs, new, hexec, hmid⟩ := h.onPage hsteady hpage
        rw [TraversalM.exec_bind_of_ok hexec]
        exact ih hmid hpage (by simpa using hbad)
      · obtain ⟨e, next, hexec⟩ := h.onPage_refused hsteady hrows.wide hpage
        exact ⟨e, next, TraversalM.exec_bind_of_error hexec _⟩

end Traversal.Follows

/-! ## The end of the rows -/

/-- The run that is given to the computations when the rows have ended. -/
def Traversal.last (t : Traversal σ ω) : Option Run :=
  t.carry.drain.1 <|> if t.labels.columns = [] ∧ t.next = 0 then some ⟨[], []⟩ else none

/-- Give the last run to the computations, and compare the number of groups with the labels. -/
def TraversalM.finish (computations : List (Computation σ ω)) (last : Option Run) :
    TraversalM σ ω Unit := do
  dispatchLast last
  let t ← get
  if t.next ≠ t.labels.rows.length then
    throw (.groupCountMismatch t.labels.rows.length t.next)
  enter .done
where
  dispatchLast : Option Run → TraversalM σ ω Unit
    | some run => dispatch computations run
    | none => pure ()

theorem TraversalM.exec_drain (t : Traversal σ ω) :
    exec (drain computations) t =
      exec (finish computations t.last) { t with phase := .draining, carry := t.carry.drain.2 } := by
  rcases t with ⟨phase, carry, columns, labels, slots, next, stats, client, aborted⟩
  rcases hdrain : carry.drain with ⟨_ | run, rest⟩
  · by_cases hsingle : labels.columns = [] ∧ next = 0 <;>
      simp [drain, finish, finish.dispatchLast, Traversal.last, exec_bind, hdrain, hsingle]
  · simp [drain, finish, finish.dispatchLast, Traversal.last, exec_bind, hdrain]

theorem Traversal.Follows.append_last {t : Traversal σ ω} {rows : List Row} {count : Nat}
    {done : List Run} {values : List (List (GroupValue ω))}
    (h : t.Follows columns keys labels computations client rows count done values)
    (hlabels : labels.columns = [] ↔ keys = 0) : done ++ t.last.toList = Run.groups keys rows := by
  have hruns := h.carry.isRuns_drain
  have hnext := h.dispatched.next_eq
  cases hheld : t.carry.held with
  | some run =>
      have hdrain : t.carry.drain.1 = some run.close := by rw [Carry.drain, hheld]
      rw [hdrain] at hruns
      have hrows : rows ≠ [] := by
        rintro rfl
        have hsplit := hruns.eq_split
        simp at hsplit
      rw [Run.groups, if_neg (fun hempty => hrows hempty.2), ← hruns.eq_split]
      simp [Traversal.last, hdrain]
  | none =>
      have hdrain : t.carry.drain.1 = none := by rw [Carry.drain, hheld]
      obtain rfl : done = [] := h.carry.closed_of_held hheld
      rw [hdrain] at hruns
      obtain rfl : rows = [] := hruns.rows_eq.symm
      rw [List.length_nil] at hnext
      by_cases hkeys : keys = 0 <;>
        simp [Traversal.last, hdrain, h.dispatched.labels_eq, hlabels, hnext, Run.groups, hkeys]

namespace Traversal.Dispatched

variable {t : Traversal σ ω} {done : List Run} {values : List (List (GroupValue ω))}

/-- The labels are compared with the runs one by one, and in number at the end. -/
theorem finish (h : t.Dispatched columns labels computations client done values)
    (hsteady : ∀ c ∈ computations, c.IsSteady) (last : Option Run)
    (hruns : List.Forall₂ (fun label run => GroupKey.equal label run.key = true) labels.rows
      (done ++ last.toList)) :
    ∃ next new, TraversalM.exec (TraversalM.finish computations last) t = (.ok (), next) ∧
      next.Dispatched columns labels computations client (done ++ last.toList) (values ++ new) ∧
      next.stats.pages = t.stats.pages ∧ next.stats.rows = t.stats.rows := by
  obtain ⟨hlength, hmatches⟩ := Matches.forall₂_iff.1 hruns
  have hlast : ∃ mid new,
      TraversalM.exec (TraversalM.finish.dispatchLast computations last) t = (.ok (), mid) ∧
      mid.Dispatched columns labels computations client (done ++ last.toList) (values ++ new) ∧
      mid.stats.pages = t.stats.pages ∧ mid.stats.rows = t.stats.rows := by
    cases last with
    | none => exact ⟨t, [], rfl, by simpa using h, rfl, rfl⟩
    | some run =>
        obtain ⟨mid, vs, hexec, hmid, _, hpages, hrows⟩ := h.dispatch hsteady hmatches
        exact ⟨mid, [vs], hexec, hmid, hpages, hrows⟩
  obtain ⟨mid, new, hexec, hmid, hpages, hrows⟩ := hlast
  refine ⟨{ mid with phase := .done }, new, ?_, hmid.enter .done, hpages, hrows⟩
  have hcount : mid.next = mid.labels.rows.length := by
    rw [hmid.next_eq, hmid.labels_eq, hlength]
  rw [TraversalM.finish, TraversalM.exec_bind_of_ok hexec]
  simp [TraversalM.exec_bind, hcount]

theorem finish_refused (h : t.Dispatched columns labels computations client done values)
    (hsteady : ∀ c ∈ computations, c.IsSteady) {last : Option Run}
    (hruns : ¬ List.Forall₂ (fun label run => GroupKey.equal label run.key = true) labels.rows
      (done ++ last.toList)) :
    ∃ e next, TraversalM.exec (TraversalM.finish computations last) t = (.error e, next) := by
  have hcount : ∀ mid : Traversal σ ω, ∀ values,
      mid.Dispatched columns labels computations client (done ++ last.toList) values →
        mid.next ≠ mid.labels.rows.length := by
    intro mid values hmid hcount
    rw [hmid.next_eq, hmid.labels_eq] at hcount
    exact hruns (Matches.forall₂_iff.2 ⟨hcount.symm, hmid.isLabelled⟩)
  cases last with
  | none =>
      have hne := hcount t values (by simpa using h)
      refine ⟨.groupCountMismatch t.labels.rows.length t.next, t, ?_⟩
      simp [TraversalM.finish, TraversalM.finish.dispatchLast, TraversalM.exec_bind, hne]
  | some run =>
      by_cases hrun : Matches labels.rows (done ++ [run])
      · obtain ⟨mid, vs, hexec, hmid, _⟩ := h.dispatch hsteady hrun
        have hne := hcount mid _ hmid
        refine ⟨.groupCountMismatch mid.labels.rows.length mid.next, mid, ?_⟩
        rw [TraversalM.finish, TraversalM.finish.dispatchLast, TraversalM.exec_bind_of_ok hexec]
        simp [TraversalM.exec_bind, hne]
      · obtain ⟨e, hexec⟩ := h.dispatch_refused hrun
        exact ⟨e, t, TraversalM.exec_bind_of_error hexec _⟩

end Traversal.Dispatched

/-! ## All of the rows -/

/-- The runs of the rows have different keys, which are the labels in their order. -/
structure InLabelOrder (keys : Nat) (labels rows : List Row) : Prop where
  wide : ∀ row ∈ rows, keys ≤ row.length
  differ : (Run.split keys rows).Pairwise fun a b => GroupKey.equal a.key b.key = false
  labelled : List.Forall₂ (fun label run => GroupKey.equal label run.key = true) labels
    (Run.groups keys rows)

theorem InLabelOrder.acceptable {labels rows : List Row} (h : InLabelOrder keys labels rows) :
    Acceptable keys labels rows := by
  refine ⟨h.wide, (inOrder_iff_pairwise keys rows).2 h.differ, ?_⟩
  have hmatches := (Matches.forall₂_iff.1 h.labelled).2
  rw [Run.groups] at hmatches
  split at hmatches
  · rename_i hempty
    intro i run hrun
    simp [hempty.2] at hrun
  · rcases (Run.split keys rows).eq_nil_or_concat' with hnil | ⟨closed, last, hsplit⟩
    · simpa [hnil] using hmatches
    · rw [hsplit] at hmatches ⊢
      simpa using hmatches.of_append

/-- Take all pages, then the last run. -/
def TraversalM.run (computations : List (Computation σ ω)) (feed : Feed) : TraversalM σ ω Unit := do
  Query.takePages computations feed
  drain computations

namespace Traversal.Follows

variable {pages : List RowSet}

theorem exec_run (columns : List String) (client : σ)
    (hsteady : ∀ c ∈ computations, c.IsSteady)
    (hlabels : labels.columns = [] ↔ keys = 0)
    (hrows : InLabelOrder keys labels.rows (pages.flatMap RowSet.rows)) :
    ∃ next values,
      TraversalM.exec (TraversalM.run computations { pages, failure := none })
        (.start columns keys computations.length labels client false) = (.ok (), next) ∧
      next.Dispatched columns labels computations client
        (Run.groups keys (pages.flatMap RowSet.rows)) values ∧
      next.stats.pages = pages.length ∧
      next.stats.rows = (pages.flatMap RowSet.rows).length := by
  obtain ⟨mid, done, new, hpages, hmid⟩ := (start columns keys labels computations client).onPages
    hsteady pages (by simpa using hrows.acceptable)
  simp only [List.nil_append, Nat.zero_add] at hmid
  have hgroups := hmid.append_last hlabels
  obtain ⟨next, new', hfinish, hnext, hcount, hlength⟩ :=
    (hmid.dispatched.congr .draining mid.carry.drain.2 mid.stats.pages mid.stats.rows).finish
      hsteady mid.last (by rw [hgroups]; exact hrows.labelled)
  refine ⟨next, new ++ new', ?_, ?_, ?_, ?_⟩
  · have htake : TraversalM.exec (Query.takePages computations { pages, failure := none })
        (.start columns keys computations.length labels client false) = (.ok (), mid) := by
      rw [Query.takePages, TraversalM.exec_bind_of_ok hpages]
      rfl
    rw [TraversalM.run, TraversalM.exec_bind_of_ok htake, TraversalM.exec_drain]
    exact hfinish
  · rwa [← hgroups]
  · rw [hcount, ← hmid.pages_eq]
  · rw [hlength, ← hmid.rows_eq]

theorem exec_run_refused (columns : List String) (client : σ)
    (hsteady : ∀ c ∈ computations, c.IsSteady)
    (hlabels : labels.columns = [] ↔ keys = 0)
    (hrows : ¬ InLabelOrder keys labels.rows (pages.flatMap RowSet.rows)) :
    ∃ e next,
      TraversalM.exec (TraversalM.run computations { pages, failure := none })
        (.start columns keys computations.length labels client false) = (.error e, next) := by
  have hstart := start columns keys labels computations client
  by_cases hgood : Acceptable keys labels.rows (pages.flatMap RowSet.rows)
  · obtain ⟨mid, done, new, hpages, hmid⟩ := hstart.onPages hsteady pages
      (by simpa using hgood)
    simp only [List.nil_append, Nat.zero_add] at hmid
    have hgroups := hmid.append_last hlabels
    have htake : TraversalM.exec (Query.takePages computations { pages, failure := none })
        (.start columns keys computations.length labels client false) = (.ok (), mid) := by
      rw [Query.takePages, TraversalM.exec_bind_of_ok hpages]
      rfl
    rw [TraversalM.run, TraversalM.exec_bind_of_ok htake, TraversalM.exec_drain]
    refine (hmid.dispatched.congr .draining mid.carry.drain.2 mid.stats.pages
      mid.stats.rows).finish_refused hsteady ?_
    rw [hgroups]
    intro hlabelled
    exact hrows ⟨hgood.wide, (inOrder_iff_pairwise keys _).1 hgood.inOrder, hlabelled⟩
  · have hempty : Acceptable keys labels.rows [] := by
      refine ⟨by simp, ?_, ?_⟩
      · exact hstart.carry.inOrder
      · intro i run hrun
        simp at hrun
    obtain ⟨e, next, hpages⟩ := hstart.onPages_refused hsteady pages hempty
      (by simpa using hgood)
    refine ⟨e, next, ?_⟩
    rw [TraversalM.run]
    apply TraversalM.exec_bind_of_error
    rw [Query.takePages]
    exact TraversalM.exec_bind_of_error hpages _

end Traversal.Follows

end

end SqlChain
