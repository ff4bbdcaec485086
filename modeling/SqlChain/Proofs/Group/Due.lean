import SqlChain.Proofs.Failure
import SqlChain.Proofs.Group.Transcript

/-!
# Runs that are due

Which runs come to be given to the computations depends on the pages alone: those that a page which
is not refused completes, and the last one if all pages were taken and nothing went wrong after
them (`dueFrom`). A traversal gives them in their order, until it halts at one of them or there is
no further one (`Course`).
-/

namespace SqlChain

variable {σ ω : Type}

/-- All rows have a key, and no key comes back after its run has ended. -/
def Orderly (keys : Nat) (rows : List Row) : Prop :=
  (∀ row ∈ rows, keys ≤ row.length) ∧ InOrder keys rows

instance (keys : Nat) (rows : List Row) : Decidable (Orderly keys rows) :=
  decidable_of_iff ((∀ row ∈ rows, keys ≤ row.length) ∧
      (Run.split keys rows).Pairwise fun a b => GroupKey.equal a.key b.key = false)
    (and_congr_right' (inOrder_iff_pairwise keys rows).symm)

/-- The runs that are due when these pages come after these rows. The last run ends only where the
rows do. Rows that are one group are a group even if there are none. -/
def dueFrom (keys : Nat) (single : Bool) (failure : Option String) (rows : List Row) :
    List RowSet → List Run
  | [] =>
    match failure with
    | some _ => (Run.split keys rows).dropLast
    | none => if single ∧ rows = [] then [⟨[], []⟩] else Run.split keys rows
  | page :: rest =>
    if Orderly keys (rows ++ page.rows) then dueFrom keys single failure (rows ++ page.rows) rest
    else (Run.split keys rows).dropLast

def Feed.due (keys : Nat) (single : Bool) (feed : Feed) : List Run :=
  dueFrom keys single feed.failure [] feed.pages

theorem Run.dropLast_split_mono (keys : Nat) (rows more : List Row) :
    (split keys rows).dropLast <+: (split keys (rows ++ more)).dropLast := by
  have hruns := isRuns_split keys rows
  rcases (split keys rows).eq_nil_or_concat' with hnil | ⟨closed, last, hsplit⟩
  · rw [hnil]
    exact List.nil_prefix
  · rw [hsplit] at hruns ⊢
    obtain ⟨grown, tail, hmore, _⟩ := hruns.exists_append more
    rw [hmore, List.dropLast_concat, List.dropLast_append_of_ne_nil (List.cons_ne_nil _ _)]
    exact List.prefix_append _ _

/-- The runs that have ended within the rows are due, whatever comes after them. -/
theorem dropLast_split_isPrefix_dueFrom (keys : Nat) (single : Bool) (failure : Option String)
    (rows : List Row) (pages : List RowSet) :
    (Run.split keys rows).dropLast <+: dueFrom keys single failure rows pages := by
  induction pages generalizing rows with
  | nil =>
      unfold dueFrom
      split
      · exact List.prefix_rfl
      · split
        · next hempty =>
            rw [hempty.2]
            exact List.nil_prefix
        · exact List.dropLast_prefix _
  | cons page rest ih =>
      unfold dueFrom
      split
      · exact (Run.dropLast_split_mono keys rows page.rows).trans (ih _)
      · exact List.prefix_rfl

/-- Rows that come in order and all arrive are due group by group. -/
theorem dueFrom_of_orderly {keys : Nat} {single : Bool} (hsingle : single = true ↔ keys = 0)
    {rows : List Row} {pages : List RowSet}
    (h : Orderly keys (rows ++ pages.flatMap RowSet.rows)) :
    dueFrom keys single none rows pages = Run.groups keys (rows ++ pages.flatMap RowSet.rows) := by
  induction pages generalizing rows with
  | nil => simp [dueFrom, Run.groups, hsingle]
  | cons page rest ih =>
      rw [List.flatMap_cons, ← List.append_assoc] at h ⊢
      have hpage : Orderly keys (rows ++ page.rows) :=
        ⟨fun row hr => h.1 row (List.mem_append_left _ hr), h.2.of_append⟩
      rw [dueFrom, if_pos hpage]
      exact ih h

theorem Carry.Follows.closed_eq {c : Carry} {keys : Nat} {rows : List Row} {closed : List Run}
    (h : c.Follows keys rows closed) : closed = (Run.split keys rows).dropLast := by
  rw [← h.isRuns.eq_split]
  cases hheld : c.held with
  | none => simp [h.closed_of_held hheld]
  | some run => simp

/-! ## Errors that are no cancellation -/

theorem Carry.failsWith_pushRows (c : Carry) (before : List Run) (rows : List Row) :
    FailsWith Error.NotCancelled (c.pushRows before rows).1 := by
  induction rows generalizing c before with
  | nil => exact .ok _
  | cons row rows ih =>
      cases hpush : c.pushRow row with
      | ok answer =>
          rw [pushRows_cons_of_ok hpush]
          exact ih _ _
      | error e =>
          rw [pushRows_cons_of_error hpush]
          refine .error ?_
          unfold pushRow at hpush
          grind [Error.NotCancelled]

namespace Output

variable {ω : Type}

theorem failsWith_combineRows {E : Error → Prop} (hshape : ∀ fault, E (.nonUniformShape fault))
    (index : Nat) (columns : Option (List String)) (labels : List Row)
    (values : List (GroupValue ω)) : FailsWith E (combineRows index columns labels values) := by
  fun_induction combineRows index columns labels values with
  | case1 index label labels table values ih => exact ih.bind fun _ => .ok _
  | case2 => exact .error (hshape _)
  | case3 index label labels table values ih => exact ih.bind fun _ => .ok _
  | case4 => exact .error (hshape _)
  | case5 => exact .ok _

theorem failsWith_assemble (labels : RowSet) (names : List (Option String))
    (slots : List (List (Option (GroupValue ω)))) :
    FailsWith Error.NotCancelled (assemble labels names slots) := by
  refine FailsWith.bind (.mapM fun column => ?_) fun columns => ?_
  · unfold filled
    split
    · exact .ok _
    · exact .error trivial
  · split
    · exact (failsWith_combineRows (fun _ => trivial) _ _ _ _).bind fun _ => .ok _
    · exact .ok _

end Output

/-! ## The course of a traversal -/

open SqlChain.Computation

/-- How a traversal comes to an end for which these runs are due. -/
inductive Course (computations : List (Computation σ ω)) (columns : List String) (client : σ)
    (aborted : Bool) (due : List Run) :
    List (Computation σ ω × Group) → Except Error Unit → Prop
  | completed (h : Undisturbed computations columns client aborted due)
      {answer : Except Error Unit} (hanswer : FailsWith Error.NotCancelled answer) :
      Course computations columns client aborted due (callsFor computations columns due) answer
  | halted {done : List Run} {run : Run} {back : List Run}
      {made : List (Computation σ ω × Group)} {error : Error} (hdue : due = done ++ run :: back)
      (h : Undisturbed computations columns client aborted done)
      (hhalts : Halts computations columns client aborted done run made error) :
      Course computations columns client aborted due made (.error error)

variable {computations : List (Computation σ ω)} {columns : List String} {client : σ}
  {aborted : Bool} {due done : List Run} {made : List (Computation σ ω × Group)}

/-- The calls that are made are the first of those for the runs that are due. -/
theorem Course.isPrefix {ended : Except Error Unit}
    (h : Course computations columns client aborted due made ended) :
    made <+: callsFor computations columns due := by
  cases h with
  | completed => exact List.prefix_rfl
  | @halted done run back made error hdue _ hhalts =>
      subst hdue
      have hdone : done <+: done ++ run :: back := List.prefix_append _ _
      have hrun : done ++ [run] <+: done ++ run :: back := ⟨back, by simp⟩
      cases hhalts with
      | cancelled => exact callsFor_mono hdone
      | unlabelled => exact callsFor_mono hdone
      | failed _ hfront =>
          refine List.IsPrefix.trans ?_ (callsFor_mono hrun)
          rw [callsFor_concat]
          exact (List.prefix_append_right_inj _).2 hfront

theorem Course.of_ok (h : Course computations columns client aborted due made (.ok ())) :
    made = callsFor computations columns due := by
  cases h with
  | completed => rfl

/-- The last run is due when the rows have ended. -/
theorem Traversal.append_last_eq_due {t : Traversal σ ω} {keys : Nat} {rows : List Row}
    (hcarry : t.carry.Follows keys rows done) (hnext : t.next = done.length) :
    done ++ t.last.toList = dueFrom keys t.labels.columns.isEmpty none rows [] := by
  have hruns := hcarry.isRuns_drain
  have hclosed := hcarry.closed_of_held
  unfold dueFrom
  cases hheld : t.carry.held with
  | some run =>
      have hdrain : t.carry.drain.1 = some run.close := by rw [Carry.drain, hheld]
      rw [hdrain] at hruns
      have hrows : rows ≠ [] := by
        rintro rfl
        have hsplit := hruns.eq_split
        simp at hsplit
      dsimp only
      rw [if_neg fun hempty => hrows hempty.2, ← hruns.eq_split]
      simp [Traversal.last, hdrain]
  | none =>
      have hdrain : t.carry.drain.1 = none := by rw [Carry.drain, hheld]
      obtain rfl : done = [] := hclosed hheld
      rw [hdrain] at hruns
      obtain rfl : rows = [] := hruns.rows_eq.symm
      rw [List.length_nil] at hnext
      by_cases hcolumns : t.labels.columns = [] <;>
        simp [Traversal.last, hdrain, hnext, hcolumns]

namespace TraversalM

/-- At the end the groups are counted, which is no longer about the computations. -/
theorem exec_finish_of_ok {others : List (Computation σ ω)} {last : Option Run}
    {t mid : Traversal σ ω} (h : exec (finish.dispatchLast others last) t = (.ok (), mid)) :
    ∃ answer phase, exec (finish others last) t = (answer, { mid with phase }) ∧
      FailsWith Error.NotCancelled answer ∧
      (answer = .ok () → mid.next = mid.labels.rows.length) := by
  rw [finish, exec_bind_of_ok h]
  by_cases hcount : mid.next = mid.labels.rows.length
  · refine ⟨.ok (), .done, ?_, .ok (), fun _ => hcount⟩
    simp [exec_bind, hcount]
  · refine ⟨.error (.groupCountMismatch mid.labels.rows.length mid.next), mid.phase, ?_,
      .error trivial, ?_⟩
    · simp [exec_bind, hcount]
    · rintro ⟨⟩

theorem exec_run_cons_of_ok {others : List (Computation σ ω)} {page : RowSet}
    {t mid : Traversal σ ω} (h : exec (onPage others page) t = (.ok (), mid))
    (failure : Option String) (pages : List RowSet) :
    exec (run others ⟨page :: pages, failure⟩) t = exec (run others ⟨pages, failure⟩) mid := by
  simp only [run, Query.takePages, List.forM, bind_assoc]
  exact exec_bind_of_ok h _

theorem exec_run_cons_of_error {others : List (Computation σ ω)} {page : RowSet}
    {t next : Traversal σ ω} {error : Error}
    (h : exec (onPage others page) t = (.error error, next)) (failure : Option String)
    (pages : List RowSet) :
    exec (run others ⟨page :: pages, failure⟩) t = (.error error, next) := by
  simp only [run, Query.takePages, List.forM, bind_assoc]
  exact exec_bind_of_error h _

end TraversalM

end SqlChain
