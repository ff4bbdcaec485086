import SqlChain.Proofs.Group.Runs

/-!
# Rows that arrive in pages

`Carry.Follows` ties what is remembered between two rows to the rows themselves: the keys of the
runs that have ended and the last run, which may still grow. Each row takes the state of the rows
before it to the state of the rows with it, or is refused because its key comes back. How the rows
are cut into pages makes no difference to this.
-/

namespace SqlChain

namespace OpenRun

@[simp] theorem key_close (run : OpenRun) : run.close.key = run.key := rfl

end OpenRun

namespace Carry

@[simp] theorem pushRows_nil (c : Carry) (released : List Run) :
    c.pushRows released [] = (.ok released.reverse, c) := rfl

theorem pushRows_cons_of_ok {c next : Carry} {row : Row} {one : Option Run}
    (h : c.pushRow row = .ok (one, next)) (released : List Run) (rest : List Row) :
    c.pushRows released (row :: rest) = next.pushRows (one.toList ++ released) rest := by
  cases one <;> simp [pushRows, h]

theorem pushRows_cons_of_error {c : Carry} {row : Row} {e : Error}
    (h : c.pushRow row = .error e) (released : List Run) (rest : List Row) :
    c.pushRows released (row :: rest) = (.error e, { c with held := none }) := by
  simp [pushRows, h]

/-- The state after these rows, of whose runs these were released. -/
structure Follows (c : Carry) (keys : Nat) (rows : List Row) (closed : List Run) : Prop where
  keys_eq : c.keys = keys
  isRuns : IsRuns keys rows (closed ++ (c.held.map OpenRun.close).toList)
  finished_eq : c.finished = (closed.map Run.key).reverse
  closed_of_held : c.held = none → closed = []
  inOrder : InOrder keys rows

theorem follows_start (keys : Nat) : (start keys).Follows keys [] [] where
  keys_eq := rfl
  isRuns := .nil keys
  finished_eq := rfl
  closed_of_held := fun _ => rfl
  inOrder := inOrder_nil keys

namespace Follows

variable {c : Carry} {keys : Nat} {rows : List Row} {closed : List Run}

theorem isFinished_iff (h : c.Follows keys rows closed) (key : GroupKey) :
    c.isFinished key = true ↔ ∃ run ∈ closed, GroupKey.equal run.key key = true := by
  simp [isFinished, h.finished_eq, GroupKey.equal_comm key]

theorem wasClosed_iff (h : c.Follows keys rows closed) (key : GroupKey) :
    WasClosed keys rows key ↔ c.isFinished key = true := by
  rw [h.isFinished_iff]
  cases hheld : c.held with
  | none =>
      have hruns := h.isRuns
      rw [h.closed_of_held hheld, hheld] at hruns
      have hrows : rows = [] := hruns.rows_eq.symm
      simp [hrows, h.closed_of_held hheld, not_wasClosed_nil]
  | some run =>
      have hruns := h.isRuns
      rw [hheld] at hruns
      exact hruns.wasClosed_iff key

theorem not_isFinished_of_held (h : c.Follows keys rows closed) {run : OpenRun} {key : GroupKey}
    (hheld : c.held = some run) (hk : GroupKey.equal run.key key = true) :
    c.isFinished key = false := by
  have hpair := (inOrder_iff_pairwise keys rows).1 h.inOrder
  have hruns := h.isRuns
  rw [hheld] at hruns
  rw [← hruns.eq_split] at hpair
  have hdiffer := (List.pairwise_append.1 hpair).2.2
  rw [← Bool.not_eq_true, h.isFinished_iff]
  rintro ⟨other, hmem, hother⟩
  have hne := hdiffer other hmem run.close (by simp)
  have heq : GroupKey.equal other.key run.key = true :=
    (GroupKey.equal_congr_right hk other.key).trans hother
  rw [show run.close.key = run.key from rfl, heq] at hne
  cases hne

/-- A row that comes in order is taken, and releases the run before it when it begins a new
one. -/
theorem pushRow (h : c.Follows keys rows closed) {row : Row} (wide : keys ≤ row.length)
    (hrow : ¬ WasClosed keys rows (row.take keys)) :
    ∃ released next, c.pushRow row = .ok (released, next) ∧
      next.Follows keys (rows ++ [row]) (closed ++ released.toList) := by
  have hin : InOrder keys (rows ++ [row]) := inOrder_concat_iff.2 ⟨h.inOrder, hrow⟩
  have hfinished : c.isFinished (row.take keys) = false := by
    rw [h.wasClosed_iff] at hrow
    exact Bool.eq_false_iff.2 hrow
  have hwide : ¬ row.length < keys := by omega
  have hruns := h.isRuns
  cases hheld : c.held with
  | none =>
      rw [hheld, h.closed_of_held hheld] at hruns
      refine ⟨none, { c with held := some (.start (row.take keys) row) }, ?_, ?_⟩
      · simp [Carry.pushRow, hwide, hheld, h.keys_eq, hfinished]
      · refine ⟨h.keys_eq, ?_, ?_, by simp, hin⟩
        · simpa [h.closed_of_held hheld] using hruns.begin row (by simp)
        · simpa using h.finished_eq
  | some run =>
      rw [hheld] at hruns
      cases hk : GroupKey.equal run.key (row.take keys) with
      | true =>
          refine ⟨none, { c with held := some (run.push row) }, ?_, ?_⟩
          · simp [Carry.pushRow, hwide, hheld, h.keys_eq, hk]
          · refine ⟨h.keys_eq, ?_, ?_, by simp, hin⟩
            · simpa using hruns.join row hk
            · simpa using h.finished_eq
      | false =>
          refine ⟨some run.close, { c with
            held := some (.start (row.take keys) row)
            finished := run.key :: c.finished }, ?_, ?_⟩
          · simp [Carry.pushRow, hwide, hheld, h.keys_eq, hk, hfinished]
          · refine ⟨h.keys_eq, ?_, ?_, by simp, hin⟩
            · have hlast : ∀ last ∈ (closed ++ [run.close]).getLast?,
                  GroupKey.equal last.key (row.take keys) = false := by
                rw [List.getLast?_concat]
                simpa using hk
              simpa using hruns.begin row hlast
            · simp [h.finished_eq, OpenRun.close]

theorem pushRow_of_wasClosed (h : c.Follows keys rows closed) {row : Row}
    (wide : keys ≤ row.length) (hrow : WasClosed keys rows (row.take keys)) :
    c.pushRow row = .error (.orderingViolation (row.take keys)) := by
  have hwide : ¬ row.length < keys := by omega
  have hfinished := (h.wasClosed_iff _).1 hrow
  cases hheld : c.held with
  | none => simp [Carry.pushRow, hwide, hheld, h.keys_eq, hfinished]
  | some run =>
      have hk : GroupKey.equal run.key (row.take keys) = false := by
        by_contra hk
        rw [h.not_isFinished_of_held hheld (by simpa using hk)] at hfinished
        cases hfinished
      simp [Carry.pushRow, hwide, hheld, h.keys_eq, hk, hfinished]

theorem pushRow_of_short (h : c.Follows keys rows closed) {row : Row}
    (short : row.length < keys) :
    c.pushRow row = .error (.invalidArgument "fetch_paged" (.shortRow row.length keys)) := by
  rw [Carry.pushRow, h.keys_eq, if_pos short]

theorem pushRows (h : c.Follows keys rows closed) {page : List Row} (before : List Run)
    (wide : ∀ row ∈ page, keys ≤ row.length) (hin : InOrder keys (rows ++ page)) :
    ∃ released next, c.pushRows before page = (.ok (before.reverse ++ released), next) ∧
      next.Follows keys (rows ++ page) (closed ++ released) := by
  induction page generalizing c rows closed before with
  | nil => exact ⟨[], c, by simp, by simpa using h⟩
  | cons row page ih =>
      have hin' : InOrder keys ((rows ++ [row]) ++ page) := by simpa using hin
      have hrow := (inOrder_concat_iff.1 hin'.of_append).2
      obtain ⟨one, next, hpush, hnext⟩ := h.pushRow (wide row (by simp)) hrow
      have wide' : ∀ r ∈ page, keys ≤ r.length := fun r hr => wide r (List.mem_cons_of_mem _ hr)
      obtain ⟨released, last, hrest, hlast⟩ := ih hnext (one.toList ++ before) wide' hin'
      refine ⟨one.toList ++ released, last, ?_, by simpa using hlast⟩
      rw [pushRows_cons_of_ok hpush, hrest]
      cases one <;> simp

/-- A page with a row that has no key or whose key comes back is refused. -/
theorem pushRows_refused (h : c.Follows keys rows closed) {page : List Row} (before : List Run)
    (hbad : ¬ ((∀ row ∈ page, keys ≤ row.length) ∧ InOrder keys (rows ++ page))) :
    ∃ e, (c.pushRows before page).1 = .error e := by
  induction page generalizing c rows closed before with
  | nil => exact absurd ⟨by simp, by simpa using h.inOrder⟩ hbad
  | cons row page ih =>
      by_cases wide : keys ≤ row.length
      · by_cases hrow : WasClosed keys rows (row.take keys)
        · have hrefused := h.pushRow_of_wasClosed wide hrow
          exact ⟨_, by rw [pushRows_cons_of_error hrefused]⟩
        · obtain ⟨one, next, hpush, hnext⟩ := h.pushRow wide hrow
          rw [pushRows_cons_of_ok hpush]
          refine ih hnext _ ?_
          rintro ⟨hwide, hin⟩
          apply hbad
          refine ⟨?_, by simpa using hin⟩
          intro r hr
          rcases List.mem_cons.1 hr with rfl | hr
          · exact wide
          · exact hwide r hr
      · have hshort := h.pushRow_of_short (Nat.lt_of_not_le wide)
        exact ⟨_, by rw [pushRows_cons_of_error hshort]⟩

end Follows

theorem pushRows_append {c next : Carry} {before released : List Run} {front : List Row}
    (h : c.pushRows before front = (.ok released, next)) (back : List Row) :
    c.pushRows before (front ++ back) = next.pushRows released.reverse back := by
  induction front generalizing c before with
  | nil =>
      simp only [pushRows_nil, Prod.mk.injEq, Except.ok.injEq] at h
      simp [← h.1, ← h.2]
  | cons row front ih =>
      cases hpush : c.pushRow row with
      | error e => simp [pushRows_cons_of_error hpush] at h
      | ok answer =>
          rw [pushRows_cons_of_ok hpush] at h
          rw [List.cons_append, pushRows_cons_of_ok hpush]
          exact ih h

/-- A page that is refused is refused with more rows behind it, too. -/
theorem pushRows_append_of_error {c next : Carry} {before : List Run} {front : List Row}
    {e : Error} (h : c.pushRows before front = (.error e, next)) (back : List Row) :
    c.pushRows before (front ++ back) = (.error e, next) := by
  induction front generalizing c before with
  | nil => simp at h
  | cons row front ih =>
      cases hpush : c.pushRow row with
      | error e' =>
          rw [pushRows_cons_of_error hpush] at h
          rw [List.cons_append, pushRows_cons_of_error hpush, h]
      | ok answer =>
          rw [pushRows_cons_of_ok hpush] at h
          rw [List.cons_append, pushRows_cons_of_ok hpush]
          exact ih h

/-- The runs that were released before stand in front of the others. -/
theorem pushRows_eq_map (c : Carry) (before : List Run) (rows : List Row) :
    c.pushRows before rows =
      Prod.map (Except.map (before.reverse ++ ·)) id (c.pushRows [] rows) := by
  induction rows generalizing c before with
  | nil => simp [Except.map]
  | cons row rows ih =>
      cases hpush : c.pushRow row with
      | error e => simp [pushRows_cons_of_error hpush, Except.map]
      | ok answer =>
          rw [pushRows_cons_of_ok hpush, pushRows_cons_of_ok hpush, ih,
            ih answer.2 (answer.1.toList ++ [])]
          rcases answer.2.pushRows [] rows with ⟨e | released, next⟩
          · rfl
          · simp [Except.map]

theorem pushPage_append (c : Carry) (front back : List Row) :
    c.pushPage (front ++ back) =
      match c.pushPage front with
      | (.error e, next) => (.error e, next)
      | (.ok released, next) => Prod.map (Except.map (released ++ ·)) id (next.pushPage back) := by
  rcases hfront : c.pushPage front with ⟨e | released, next⟩
  · exact pushRows_append_of_error hfront back
  · have happend : c.pushPage (front ++ back) = next.pushRows released.reverse back :=
      pushRows_append hfront back
    rw [happend, pushRows_eq_map, List.reverse_reverse]
    rfl

/-- A page is refused at the first row whose key comes back. -/
theorem Follows.pushPage_of_wasClosed {c : Carry} {keys : Nat} {rows front : List Row}
    {closed : List Run} {row : Row} (h : c.Follows keys rows closed) (back : List Row)
    (wide : ∀ r ∈ front ++ [row], keys ≤ r.length) (hin : InOrder keys (rows ++ front))
    (hrow : WasClosed keys (rows ++ front) (row.take keys)) :
    (c.pushPage (front ++ row :: back)).1 = .error (.orderingViolation (row.take keys)) := by
  obtain ⟨released, next, hfront, hnext⟩ := h.pushRows []
    (fun r hr => wide r (List.mem_append_left _ hr)) hin
  have hrefused := hnext.pushRow_of_wasClosed (wide row (by simp)) hrow
  rw [pushPage, pushRows_append hfront, pushRows_cons_of_error hrefused]

/-- The answers to pages that are added one after another, and what is remembered in the end. -/
def pushPages (c : Carry) : List (List Row) → List (Except Error (List Run)) × Carry
  | [] => ([], c)
  | page :: rest =>
    let (answer, c) := c.pushPage page
    let (answers, c) := c.pushPages rest
    (answer :: answers, c)

theorem pushPages_append (c : Carry) (front back : List (List Row)) :
    c.pushPages (front ++ back) =
      ((c.pushPages front).1 ++ ((c.pushPages front).2.pushPages back).1,
        ((c.pushPages front).2.pushPages back).2) := by
  induction front generalizing c with
  | nil => rfl
  | cons page front ih => simp [pushPages, ih]

theorem pushPages_take (c : Carry) (pages : List (List Row)) (n : Nat) :
    (c.pushPages (pages.take n)).1 = (c.pushPages pages).1.take n := by
  induction pages generalizing c n with
  | nil => simp [pushPages]
  | cons page pages ih =>
      cases n with
      | zero => simp [pushPages]
      | succ n => simp [pushPages, ih]

theorem length_pushPages (c : Carry) (pages : List (List Row)) :
    (c.pushPages pages).1.length = pages.length := by
  induction pages generalizing c with
  | nil => rfl
  | cons page pages ih => simp [pushPages, ih]

theorem Follows.pushPages {c : Carry} {keys : Nat} {rows : List Row} {closed : List Run}
    (h : c.Follows keys rows closed) {pages : List (List Row)}
    (wide : ∀ row ∈ pages.flatten, keys ≤ row.length)
    (hin : InOrder keys (rows ++ pages.flatten)) :
    ∃ (released : List (List Run)) (next : Carry),
      c.pushPages pages = (released.map .ok, next) ∧
      next.Follows keys (rows ++ pages.flatten) (closed ++ released.flatten) := by
  induction pages generalizing c rows closed with
  | nil => exact ⟨[], c, rfl, by simpa using h⟩
  | cons page pages ih =>
      have hin' : InOrder keys ((rows ++ page) ++ pages.flatten) := by simpa using hin
      have hpage : ∀ row ∈ page, keys ≤ row.length := fun row hr => wide row (by simp [hr])
      obtain ⟨runs, next, hpush, hnext⟩ := h.pushRows [] hpage hin'.of_append
      have hrest : ∀ row ∈ pages.flatten, keys ≤ row.length := fun row hr =>
        wide row (by simp only [List.flatten_cons, List.mem_append, hr, or_true])
      obtain ⟨released, last, hpages, hlast⟩ := ih hnext hrest hin'
      refine ⟨runs :: released, last, ?_, by simpa using hlast⟩
      simp only [List.reverse_nil, List.nil_append] at hpush
      simp [Carry.pushPages, pushPage, hpush, hpages]

theorem Follows.isRuns_drain {c : Carry} {keys : Nat} {rows : List Row} {closed : List Run}
    (h : c.Follows keys rows closed) : IsRuns keys rows (closed ++ c.drain.1.toList) := by
  have hruns := h.isRuns
  cases hheld : c.held <;> simpa [drain, hheld] using hruns

theorem exists_page_of_flatten_eq {pages : List (List Row)} {before after : List Row} {row : Row}
    (h : pages.flatten = before ++ row :: after) :
    ∃ done front back later, pages = done ++ (front ++ row :: back) :: later ∧
      done.flatten ++ front = before := by
  induction pages generalizing before with
  | nil => simp at h
  | cons page pages ih =>
      rw [List.flatten_cons, List.append_eq_append_iff] at h
      rcases h with ⟨mid, hbefore, hrest⟩ | ⟨mid, hpage, hrest⟩
      · obtain ⟨done, front, back, later, hpages, hdone⟩ := ih hrest
        exact ⟨page :: done, front, back, later, by simp [hpages], by simp [hbefore, hdone]⟩
      · cases mid with
        | nil =>
            have hrest' : pages.flatten = [] ++ row :: after := hrest.symm
            obtain ⟨done, front, back, later, hpages, hdone⟩ := ih hrest'
            refine ⟨page :: done, front, back, later, by simp [hpages], ?_⟩
            simp [hpage, hdone]
        | cons r mid =>
            obtain ⟨rfl, _⟩ := List.cons.inj hrest
            exact ⟨[], before, mid, pages, by simp [hpage], rfl⟩

/-- The runs released by the first pages are those whose successor has begun in these pages. -/
theorem lt_length_released_iff {keys : Nat} {pages : List (List Row)}
    {released : List (List Run)} {c : Carry}
    (wide : ∀ row ∈ pages.flatten, keys ≤ row.length) (hin : InOrder keys pages.flatten)
    (hpush : (Carry.start keys).pushPages pages = (released.map .ok, c)) (i j : Nat) :
    i < (released.take j).flatten.length ↔
      i + 1 < (Run.split keys pages.flatten).length ∧
        Run.offset (Run.split keys pages.flatten) (i + 1) < (pages.take j).flatten.length := by
  have hpages : pages.flatten = (pages.take j).flatten ++ (pages.drop j).flatten := by
    rw [← List.flatten_append, List.take_append_drop]
  have hwide : ∀ row ∈ (pages.take j).flatten, keys ≤ row.length := by
    intro row hr
    exact wide row (hpages ▸ List.mem_append_left _ hr)
  have hin' : InOrder keys ([] ++ (pages.take j).flatten) := by
    rw [hpages] at hin
    exact hin.of_append
  obtain ⟨front, mid, hfront, hmid⟩ := (follows_start keys).pushPages hwide hin'
  have htake : front = released.take j := by
    have hanswers := pushPages_take (Carry.start keys) pages j
    rw [hfront, hpush] at hanswers
    rw [← List.map_take] at hanswers
    exact List.map_injective_iff.2 (fun _ _ => Except.ok.inj) hanswers
  simp only [List.nil_append, htake] at hmid
  have hruns := hmid.isRuns
  cases hheld : mid.held with
  | none =>
      rw [hheld, hmid.closed_of_held hheld] at hruns
      have hrows : (pages.take j).flatten = [] := hruns.rows_eq.symm
      rw [hmid.closed_of_held hheld, hrows]
      simp
  | some run =>
      rw [hheld] at hruns
      rw [hpages]
      exact hruns.lt_length_iff (pages.drop j).flatten i

/-- Rows that come in order are released run by run, however they are cut into pages: each run by
the page that brings the first row of the next one, and the last run when the rows have ended.
Rows that do not come in order are refused at the first row with the key of a run that has ended,
and the cut into pages has no part in which row this is. -/
theorem pushPages_eq_runs (keys : Nat) (rows : List Row)
    (wide : ∀ row ∈ rows, keys ≤ row.length) :
    (InOrder keys rows → ∀ pages : List (List Row), pages.flatten = rows →
      ∃ (released : List (List Run)) (c : Carry) (runs : List Run),
        (Carry.start keys).pushPages pages = (released.map .ok, c) ∧
        released.flatten ++ c.drain.1.toList = runs ∧ IsRuns keys rows runs ∧
        ∀ i j, i < (released.take j).flatten.length ↔
          i + 1 < runs.length ∧ Run.offset runs (i + 1) < (pages.take j).flatten.length) ∧
    (¬ InOrder keys rows → ∃ before row after,
      rows = before ++ row :: after ∧ InOrder keys before ∧
      WasClosed keys before (row.take keys) ∧
      ∀ pages : List (List Row), pages.flatten = rows →
        ∃ (done : List (List Row)) (front back : List Row) (later : List (List Row))
          (released : List (List Run)) (rest : List (Except Error (List Run))),
          pages = done ++ (front ++ row :: back) :: later ∧ done.flatten ++ front = before ∧
          released.length = done.length ∧
          ((Carry.start keys).pushPages pages).1 =
            released.map .ok ++ .error (.orderingViolation (row.take keys)) :: rest) := by
  constructor
  · rintro hin pages rfl
    obtain ⟨released, c, hpush, hc⟩ := (follows_start keys).pushPages wide hin
    have hruns : IsRuns keys pages.flatten (released.flatten ++ c.drain.1.toList) :=
      hc.isRuns_drain
    refine ⟨released, c, _, hpush, rfl, hruns, ?_⟩
    intro i j
    rw [hruns.eq_split]
    exact lt_length_released_iff wide hin hpush i j
  · intro hout
    obtain ⟨before, row, after, hrows, hbefore, hrow⟩ := exists_first_of_not_inOrder hout
    refine ⟨before, row, after, hrows, hbefore, hrow, ?_⟩
    intro pages hpages
    obtain ⟨done, front, back, later, rfl, rfl⟩ := exists_page_of_flatten_eq (hpages.trans hrows)
    have hdone : ∀ r ∈ done.flatten, keys ≤ r.length := fun r hr => wide r (by simp [hrows, hr])
    have hpage : ∀ r ∈ front ++ [row], keys ≤ r.length := by
      intro r hr
      apply wide r
      rw [hrows]
      simp only [List.mem_append, List.mem_cons, List.not_mem_nil, or_false] at hr ⊢
      tauto
    obtain ⟨released, c, hpush, hc⟩ := (follows_start keys).pushPages hdone hbefore.of_append
    have hrefused := hc.pushPage_of_wasClosed back hpage hbefore hrow
    have hlength := length_pushPages (Carry.start keys) done
    rw [hpush, List.length_map] at hlength
    have hanswers : ((Carry.start keys).pushPages (done ++ (front ++ row :: back) :: later)).1 =
        released.map .ok ++ .error (.orderingViolation (row.take keys)) ::
          ((c.pushPage (front ++ row :: back)).2.pushPages later).1 := by
      rw [← hrefused, pushPages_append, hpush]
      rfl
    exact ⟨done, front, back, later, released, _, rfl, rfl, hlength, hanswers⟩

/-- Keys that are null, zeros of both signs and NaNs, with runs that end with a page, go on over
an empty one and begin within one. -/
theorem pushPages_null_zero_nan :
    let row (key : Scalar) (n : Int64) : Row := [key, .int64 n]
    let pages : List (List Row) :=
      [[row .null 1], [], [row .null 2, row (.float64 (.zero false)) 3],
        [row (.float64 (.zero true)) 4], [row (.float64 (.nan false)) 5]]
    (∀ r ∈ pages.flatten, 1 ≤ r.length) ∧ InOrder 1 pages.flatten ∧
      ∃ (released : List (List Run)) (c : Carry) (runs : List Run),
        (Carry.start 1).pushPages pages = (released.map .ok, c) ∧
        released.flatten ++ c.drain.1.toList = runs ∧ IsRuns 1 pages.flatten runs ∧
        ∀ i j, i < (released.take j).flatten.length ↔
          i + 1 < runs.length ∧ Run.offset runs (i + 1) < (pages.take j).flatten.length := by
  intro row pages
  have hwide : ∀ r ∈ pages.flatten, 1 ≤ r.length := by decide
  have hin : InOrder 1 pages.flatten := (inOrder_iff_pairwise 1 _).2 (by decide)
  exact ⟨hwide, hin, (pushPages_eq_runs 1 pages.flatten hwide).1 hin pages rfl⟩

end Carry

end SqlChain
