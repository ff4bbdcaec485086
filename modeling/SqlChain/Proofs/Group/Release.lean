import SqlChain.Proofs.Group.Carry

/-!
# Every group is released once

Pages may be added and the held run may be drained in any order, and one may go on after a page
that was refused. A refused page loses the runs that it had completed: they are not released, but
their keys stay finished. `Carry.HasReleased` is what all of this leaves intact.
-/

namespace SqlChain

namespace Carry

/-- The rows of the run that is held. -/
def heldRows (c : Carry) : List Row := c.held.elim [] (·.close.rows)

theorem length_heldRows (c : Carry) : c.heldRows.length = c.carriedRows := by
  cases h : c.held <;> simp [heldRows, carriedRows, OpenRun.close, h]

end Carry

/-- There are rows in the run, and the key of the run is that of each of them. -/
structure Run.IsFilled (keys : Nat) (run : Run) : Prop where
  rows_ne_nil : run.rows ≠ []
  wide : ∀ row ∈ run.rows, keys ≤ row.length
  equal_key : ∀ row ∈ run.rows, GroupKey.equal run.key (row.take keys) = true

namespace Run.IsFilled

variable {keys : Nat} {row : Row}

theorem start (wide : keys ≤ row.length) :
    (OpenRun.start (row.take keys) row).close.IsFilled keys where
  rows_ne_nil := by simp
  wide := by simpa using wide
  equal_key := by simp

theorem push {run : OpenRun} (h : run.close.IsFilled keys) (wide : keys ≤ row.length)
    (hk : GroupKey.equal run.key (row.take keys) = true) : (run.push row).close.IsFilled keys where
  rows_ne_nil := by simp
  wide r hr := by
    rw [OpenRun.close_push, List.mem_append, List.mem_singleton] at hr
    rcases hr with hr | rfl
    · exact h.wide r hr
    · exact wide
  equal_key r hr := by
    rw [OpenRun.close_push, List.mem_append, List.mem_singleton] at hr
    rcases hr with hr | rfl
    · exact h.equal_key r hr
    · simpa using hk

end Run.IsFilled

namespace Carry

/-- These runs, and no others, were released before this state. -/
structure HasReleased (c : Carry) (keys : Nat) (runs : List Run) : Prop where
  keys_eq : c.keys = keys
  differ : runs.Pairwise fun a b => GroupKey.equal a.key b.key = false
  filled : ∀ run ∈ runs, run.IsFilled keys
  finished : ∀ run ∈ runs, c.isFinished run.key = true
  held_filled : ∀ run ∈ c.held, run.close.IsFilled keys
  held_not_finished : ∀ run ∈ c.held, c.isFinished run.key = false

theorem isFinished_congr {key other : GroupKey} (h : GroupKey.equal key other = true)
    (c : Carry) : c.isFinished key = c.isFinished other := by
  have hequal : GroupKey.equal key = GroupKey.equal other := funext (GroupKey.equal_congr_left h)
  rw [isFinished, isFinished, hequal]

theorem hasReleased_start (keys : Nat) : (start keys).HasReleased keys [] where
  keys_eq := rfl
  differ := .nil
  filled := by simp
  finished := by simp
  held_filled := by simp [start]
  held_not_finished := by simp [start]

namespace HasReleased

variable {c next : Carry} {keys : Nat} {runs : List Run}

/-- A key that is not finished is not the key of a run that was released. -/
theorem ne_of_not_isFinished (h : c.HasReleased keys runs) {key : GroupKey}
    (hkey : c.isFinished key = false) : ∀ run ∈ runs, GroupKey.equal run.key key = false := by
  intro run hr
  by_contra heq
  have hfinished := h.finished run hr
  rw [isFinished_congr (by simpa using heq) c, hkey] at hfinished
  cases hfinished

/-- The runs of a page that is refused are lost. -/
theorem sublist (h : c.HasReleased keys runs) {fewer : List Run} (hsub : fewer.Sublist runs) :
    c.HasReleased keys fewer where
  keys_eq := h.keys_eq
  differ := h.differ.sublist hsub
  filled run hr := h.filled run (hsub.subset hr)
  finished run hr := h.finished run (hsub.subset hr)
  held_filled := h.held_filled
  held_not_finished := h.held_not_finished

theorem lose (h : c.HasReleased keys runs) : { c with held := none }.HasReleased keys runs where
  keys_eq := h.keys_eq
  differ := h.differ
  filled := h.filled
  finished := h.finished
  held_filled := by simp
  held_not_finished := by simp

/-- Another run is held, whose key is not finished. -/
theorem hold (h : c.HasReleased keys runs) {run : OpenRun} (hfilled : run.close.IsFilled keys)
    (hkey : c.isFinished run.key = false) :
    { c with held := some run }.HasReleased keys runs where
  keys_eq := h.keys_eq
  differ := h.differ
  filled := h.filled
  finished := h.finished
  held_filled := by simpa using hfilled
  held_not_finished := by simpa [isFinished] using hkey

/-- The run that is held is released, and its key is finished from then on. -/
theorem release (h : c.HasReleased keys runs) {run : OpenRun} (hheld : c.held = some run) :
    { c with held := none, finished := run.key :: c.finished }.HasReleased keys
      (runs ++ [run.close]) where
  keys_eq := h.keys_eq
  differ := by
    have hne := h.ne_of_not_isFinished (h.held_not_finished run hheld)
    simpa [List.pairwise_append] using ⟨h.differ, hne⟩
  filled := by
    have hrun := h.held_filled run hheld
    simpa [or_imp, forall_and] using ⟨h.filled, hrun⟩
  finished := by
    intro r hr
    rcases List.mem_append.1 hr with hr | hr
    · have hfinished := h.finished r hr
      simp only [isFinished] at hfinished
      simp [isFinished, hfinished]
    · cases List.mem_singleton.1 hr
      simp [isFinished]
  held_filled := by simp
  held_not_finished := by simp

/-- A row that is taken is held, and what is released was held before it. -/
theorem pushRow (h : c.HasReleased keys runs) {row : Row} {one : Option Run}
    (hpush : c.pushRow row = .ok (one, next)) :
    next.HasReleased keys (runs ++ one.toList) ∧
      one.toList.flatMap Run.rows ++ next.heldRows = c.heldRows ++ [row] := by
  obtain rfl := h.keys_eq
  rw [Carry.pushRow] at hpush
  by_cases hwide : row.length < c.keys
  · simp [hwide] at hpush
  have wide : c.keys ≤ row.length := by omega
  simp only [hwide, if_false] at hpush
  cases hheld : c.held with
  | none =>
      simp only [hheld] at hpush
      cases hfinished : c.isFinished (row.take c.keys) with
      | true => simp [hfinished] at hpush
      | false =>
          simp only [hfinished, Bool.false_eq_true, if_false, Except.ok.injEq,
            Prod.mk.injEq] at hpush
          obtain ⟨rfl, rfl⟩ := hpush
          refine ⟨?_, by simp [heldRows, hheld]⟩
          simpa using h.hold (.start wide) hfinished
  | some run =>
      simp only [hheld] at hpush
      cases hk : GroupKey.equal run.key (row.take c.keys) with
      | true =>
          simp only [hk, if_true, Except.ok.injEq, Prod.mk.injEq] at hpush
          obtain ⟨rfl, rfl⟩ := hpush
          refine ⟨?_, by simp [heldRows, hheld]⟩
          have hfilled := (h.held_filled run hheld).push wide hk
          simpa using h.hold hfilled (h.held_not_finished run hheld)
      | false =>
          simp only [hk, Bool.false_eq_true, if_false] at hpush
          cases hfinished : c.isFinished (row.take c.keys) with
          | true => simp [hfinished] at hpush
          | false =>
              simp only [hfinished, Bool.false_eq_true, if_false, Except.ok.injEq,
                Prod.mk.injEq] at hpush
              obtain ⟨rfl, rfl⟩ := hpush
              refine ⟨?_, by simp [heldRows, hheld]⟩
              have hkey : { c with held := none, finished := run.key :: c.finished }.isFinished
                  (row.take c.keys) = false := by
                simp only [isFinished, List.any_cons, Bool.or_eq_false_iff] at hfinished ⊢
                exact ⟨by rwa [GroupKey.equal_comm], hfinished⟩
              exact (h.release hheld).hold (.start wide) hkey

/-- A page that is taken releases what it completes, in the order of the rows. -/
theorem pushRows {before : List Run} (h : c.HasReleased keys (runs ++ before.reverse))
    (page : List Row) {answer : Except Error (List Run)}
    (hpush : c.pushRows before page = (answer, next)) :
    (∀ e, answer = .error e → next.HasReleased keys runs) ∧
      ∀ released, answer = .ok released → next.HasReleased keys (runs ++ released) ∧
        released.flatMap Run.rows ++ next.heldRows =
          before.reverse.flatMap Run.rows ++ c.heldRows ++ page := by
  induction page generalizing c before with
  | nil =>
      rw [pushRows_nil, Prod.mk.injEq] at hpush
      obtain ⟨rfl, rfl⟩ := hpush
      exact ⟨by simp, by simpa using h⟩
  | cons row page ih =>
      cases hrow : c.pushRow row with
      | error e =>
          rw [pushRows_cons_of_error hrow, Prod.mk.injEq] at hpush
          obtain ⟨rfl, rfl⟩ := hpush
          exact ⟨fun _ _ => (h.sublist (List.sublist_append_left _ _)).lose, by simp⟩
      | ok taken =>
          obtain ⟨one, mid⟩ := taken
          rw [pushRows_cons_of_ok hrow] at hpush
          obtain ⟨hmid, hrows⟩ := h.pushRow hrow
          have hbefore : (one.toList ++ before).reverse = before.reverse ++ one.toList := by
            cases one <;> simp
          have hmid' : mid.HasReleased keys (runs ++ (one.toList ++ before).reverse) := by
            rw [hbefore, ← List.append_assoc]
            exact hmid
          obtain ⟨hrefused, htaken⟩ := ih hmid' hpush
          refine ⟨hrefused, fun released hanswer => ?_⟩
          obtain ⟨hnext, hall⟩ := htaken released hanswer
          refine ⟨hnext, hall.trans ?_⟩
          calc
            _ = before.reverse.flatMap Run.rows ++ (one.toList.flatMap Run.rows ++ mid.heldRows)
                  ++ page := by simp [hbefore]
            _ = _ := by simp [hrows]

end HasReleased

/-! ## Sequences of calls -/

/-- What may be asked for. -/
inductive Call where
  | push (page : List Row)
  | drain
deriving DecidableEq, Repr

def Call.rows : Call → List Row
  | .push page => page
  | .drain => []

def perform (c : Carry) : Call → Except Error (List Run) × Carry
  | .push page => c.pushPage page
  | .drain => (.ok c.drain.1.toList, c.drain.2)

/-- The answers to calls that are made one after another, and what is remembered in the end. -/
def performAll (c : Carry) : List Call → List (Except Error (List Run)) × Carry
  | [] => ([], c)
  | call :: rest =>
    let (answer, c) := c.perform call
    let (answers, c) := c.performAll rest
    (answer :: answers, c)

/-- The runs that an answer hands out. -/
def handedOut : Except Error (List Run) → List Run
  | .ok runs => runs
  | .error _ => []

theorem HasReleased.perform {c : Carry} {keys : Nat} {runs : List Run}
    (h : c.HasReleased keys runs) (call : Call) :
    (c.perform call).2.HasReleased keys (runs ++ handedOut (c.perform call).1) ∧
      ((c.perform call).1.isOk = true →
        (handedOut (c.perform call).1).flatMap Run.rows ++ (c.perform call).2.heldRows =
          c.heldRows ++ call.rows) := by
  cases call with
  | push page =>
      rcases hpush : c.pushPage page with ⟨answer, next⟩
      have hbefore : c.HasReleased keys (runs ++ ([] : List Run).reverse) := by simpa using h
      obtain ⟨hrefused, htaken⟩ := hbefore.pushRows page hpush
      cases answer with
      | error e =>
          simpa [Carry.perform, hpush, handedOut, Except.isOk, Except.toBool] using hrefused
      | ok released =>
          simpa [Carry.perform, hpush, handedOut, Call.rows, Except.isOk, Except.toBool]
            using htaken
  | drain =>
      cases hheld : c.held with
      | none => simpa [Carry.perform, Carry.drain, hheld, handedOut, heldRows, Call.rows] using h
      | some run =>
          have hrelease := h.release hheld
          simpa [Carry.perform, Carry.drain, hheld, handedOut, heldRows, Call.rows] using hrelease

theorem HasReleased.performAll {c : Carry} {keys : Nat} {runs : List Run}
    (h : c.HasReleased keys runs) (calls : List Call) :
    (c.performAll calls).2.HasReleased keys
        (runs ++ (c.performAll calls).1.flatMap handedOut) ∧
      ((∀ answer ∈ (c.performAll calls).1, answer.isOk = true) →
        ((c.performAll calls).1.flatMap handedOut).flatMap Run.rows ++
            (c.performAll calls).2.heldRows =
          c.heldRows ++ calls.flatMap Call.rows) := by
  induction calls generalizing c runs with
  | nil => simpa [Carry.performAll] using h
  | cons call calls ih =>
      obtain ⟨hone, honeRows⟩ := h.perform call
      obtain ⟨hrest, hrestRows⟩ := ih hone
      refine ⟨by simpa [Carry.performAll] using hrest, fun hok => ?_⟩
      simp only [Carry.performAll, List.mem_cons, forall_eq_or_imp] at hok
      have hfirst := honeRows hok.1
      have hlater := hrestRows hok.2
      simp only [Carry.performAll, List.flatMap_cons, List.flatMap_append, List.append_assoc]
      rw [hlater, ← List.append_assoc, hfirst, List.append_assoc]

/-- Whatever calls are made, also after a page that was refused or after a drain, no two runs that
are released have equal keys. Each of them has rows, all with its key, and the run that is held is
of no key that is finished. As long as no page is refused, the rows that were released and those
that are held are the rows that were added. -/
theorem performAll_releases_once (keys : Nat) (calls : List Call) :
    let answers := ((start keys).performAll calls).1
    let c := ((start keys).performAll calls).2
    let runs := answers.flatMap handedOut
    runs.Pairwise (fun a b => GroupKey.equal a.key b.key = false) ∧
      (∀ run ∈ runs, run.rows ≠ [] ∧
        ∀ row ∈ run.rows, keys ≤ row.length ∧ GroupKey.equal run.key (row.take keys) = true) ∧
      (∀ run ∈ runs, c.isFinished run.key = true) ∧
      (∀ run ∈ c.held, c.isFinished run.key = false) ∧
      ((∀ answer ∈ answers, answer.isOk = true) →
        runs.flatMap Run.rows ++ c.heldRows = calls.flatMap Call.rows) := by
  intro answers c runs
  obtain ⟨h, hrows⟩ := (hasReleased_start keys).performAll calls
  refine ⟨h.differ, ?_, h.finished, h.held_not_finished, hrows⟩
  intro run hr
  have hfilled := h.filled run hr
  exact ⟨hfilled.rows_ne_nil, fun row hrow => ⟨hfilled.wide row hrow, hfilled.equal_key row hrow⟩⟩

end Carry

end SqlChain
