import SqlChain.Proofs.Group.Assembly
import SqlChain.Proofs.Group.Release
import SqlChain.Proofs.Group.Served

/-!
# The books of a traversal

A traversal counts groups twice and rows once, fills slots and holds rows back. Between two pages
and after the end of the rows all of this agrees, since every page that is taken keeps
`Traversal.Counts` and so does the end. What is counted does not depend on the computations, which
is shown by comparing a traversal with the one that has as many groups counted as came before the
next one.
-/

namespace SqlChain

open SqlChain.Computation

variable {σ ω : Type}

/-- What is in the slot of a computation for a group. -/
def Traversal.slot (t : Traversal σ ω) (computation group : Nat) : Option (GroupValue ω) :=
  (t.slots[computation]?.bind (·[group]?)).join

/-- The counters, the slots and the rows that are held back agree with the runs that were given to
the computations. -/
structure Traversal.Balanced (labels : RowSet) (computations : Nat) (t : Traversal σ ω)
    (done : List Run) : Prop where
  filled : ∀ c < computations, ∀ i, (t.slot c i).isSome = true ↔ i < t.next
  next_eq : t.next = t.stats.groups
  groups_eq : t.stats.groups = done.length
  next_le : t.next ≤ labels.rows.length
  rows_eq : (done.flatMap Run.rows).length + t.carry.carriedRows = t.stats.rows

theorem Matches.length_le {labels : List Row} {runs : List Run} (h : Matches labels runs) :
    runs.length ≤ labels.length := by
  rcases runs.eq_nil_or_concat' with rfl | ⟨front, last, rfl⟩
  · exact Nat.zero_le _
  · obtain ⟨label, hlabel, -⟩ := (Matches.concat_iff.1 h).2
    have hlt := (List.getElem?_eq_some_iff.1 hlabel).1
    rw [List.length_append, List.length_singleton]
    exact hlt

theorem isSome_slotsOf {computations groups c i : Nat} {values : List (List (GroupValue ω))}
    (hc : c < computations) (hwidth : ∀ vs ∈ values, vs.length = computations) :
    (((slotsOf computations groups values)[c]?.bind (·[i]?)).join).isSome = true ↔
      i < values.length := by
  have hlength := length_filterMap_getElem? hc hwidth
  have hcolumn : (slotsOf computations groups values)[c]? = some
      ((values.filterMap (·[c]?)).map some ++ List.replicate (groups - values.length) none) := by
    simp [slotsOf, hc]
  rw [hcolumn, Option.bind_some]
  by_cases hi : i < values.length
  · rw [List.getElem?_append_left (by rw [List.length_map, hlength]; exact hi)]
    simp [hlength, hi]
  · rw [List.getElem?_append_right (by rw [List.length_map, hlength]; omega),
      List.getElem?_replicate]
    split <;> simp [hi]

/-! ## What is counted -/

/-- The traversal with as many groups counted as came before the next one. -/
def Traversal.counted (carry : Carry) (pages rows : Nat) (t : Traversal σ ω) : Traversal σ ω :=
  { t with carry, stats := { pages, rows, groups := t.next } }

theorem isView_counted (carry : Carry) (pages rows : Nat) (computations : List (Computation σ ω)) :
    IsView (Traversal.counted carry pages rows) computations computations where
  columns_eq _ := rfl
  labels_eq _ := rfl
  next_eq _ := rfl
  aborted_eq _ := rfl
  advance _ := rfl
  enter _ := .modify fun _ => rfl
  calls := by
    refine List.forall₂_same.2 fun c _ group i t => ?_
    simp only [TraversalM.exec_call, Traversal.counted]
    cases (c.run group t.client).value <;> rfl

namespace TraversalM

/-- Steps that do to the counted traversal what they do to the traversal only count groups. -/
theorem stats_of_exec {m : TraversalM σ ω Unit} {t next : Traversal σ ω} {ended : Except Error Unit}
    (hview : ∀ carry pages rows, Simulates (Traversal.counted carry pages rows) m m)
    (hgroups : t.stats.groups = t.next) (hexec : exec m t = (ended, next)) :
    next.carry = t.carry ∧
      next.stats = { pages := t.stats.pages, rows := t.stats.rows, groups := next.next } := by
  have hself : t.counted t.carry t.stats.pages t.stats.rows = t :=
    congrArg (fun groups => { t with stats := { t.stats with groups } }) hgroups.symm
  have hcounted := hview t.carry t.stats.pages t.stats.rows t
  rw [hself, hexec] at hcounted
  have hnext : next = next.counted t.carry t.stats.pages t.stats.rows :=
    congrArg Prod.snd hcounted
  have hcarry := congrArg Traversal.carry hnext
  have hstats := congrArg Traversal.stats hnext
  exact ⟨hcarry, hstats⟩

theorem exists_of_exec_bind {α β : Type} {m : TraversalM σ ω α} {f : α → TraversalM σ ω β}
    {t next : Traversal σ ω} {b : β} (h : exec (m >>= f) t = (.ok b, next)) :
    ∃ a mid, exec m t = (.ok a, mid) ∧ exec (f a) mid = (.ok b, next) := by
  rw [exec_bind] at h
  rcases hm : exec m t with ⟨e | a, mid⟩
  · rw [hm] at h
    cases h
  · rw [hm] at h
    exact ⟨a, mid, rfl, h⟩

/-- A page that is taken has all of its runs given to the computations. -/
theorem exists_of_exec_onPage {computations : List (Computation σ ω)} {page : RowSet}
    {t next : Traversal σ ω} (h : exec (onPage computations page) t = (.ok (), next)) :
    ∃ runs mid, (t.carry.pushPage page.rows).1 = .ok runs ∧
      exec (dispatchAll computations runs)
        { t with
          carry := (t.carry.pushPage page.rows).2
          stats := { pages := t.stats.pages + 1, rows := t.stats.rows + page.rows.length,
                     groups := t.stats.groups } } = (.ok (), mid) ∧
      next = { mid with phase := .fetching } := by
  rw [Traversal.Follows.exec_onPage_eq] at h
  cases hanswer : (t.carry.pushPage page.rows).1 with
  | error e =>
      rw [hanswer] at h
      cases h
  | ok runs =>
      rw [hanswer] at h
      obtain ⟨_, mid, hmid, hlast⟩ := exists_of_exec_bind h
      rw [exec_enter] at hlast
      cases hlast
      exact ⟨runs, mid, rfl, hmid, rfl⟩

theorem exists_of_exec_drain {computations : List (Computation σ ω)} {t next : Traversal σ ω}
    (h : exec (drain computations) t = (.ok (), next)) :
    ∃ mid, exec (finish.dispatchLast computations t.last)
        { t with phase := .draining, carry := t.carry.drain.2 } = (.ok (), mid) ∧
      mid.next = mid.labels.rows.length ∧ next = { mid with phase := .done } := by
  rw [exec_drain, finish] at h
  obtain ⟨_, mid, hmid, hlast⟩ := exists_of_exec_bind h
  refine ⟨mid, hmid, ?_⟩
  by_cases hcount : mid.next = mid.labels.rows.length
  · simp [exec_bind, hcount] at hlast
    exact ⟨hcount, by rw [← hlast, ← hcount]⟩
  · simp [exec_bind, hcount] at hlast

end TraversalM

/-! ## Books that are kept -/

section

variable (computations : List (Computation σ ω)) (columns : List String) (labels : RowSet)
  (client : σ) (aborted : Bool)

/-- These runs were served, and each of them was counted. -/
structure Traversal.Counts (t : Traversal (σ × List Call) ω) (done : List Run) : Prop where
  served : ∃ values, t.HasServed computations columns labels client aborted done values
  groups_eq : t.stats.groups = t.next

end

variable {computations : List (Computation σ ω)} {columns : List String} {labels : RowSet}
  {client : σ} {aborted : Bool} {done : List Run} {t next : Traversal (σ × List Call) ω}

namespace Traversal.Counts

theorem start (computations : List (Computation σ ω)) (columns : List String) (keys : Nat)
    (labels : RowSet) (client : σ) (aborted : Bool) :
    Traversal.Counts computations columns labels client aborted
      (.start columns keys computations.length labels (client, []) aborted) [] :=
  ⟨⟨[], hasServed_start computations columns keys labels client aborted⟩, rfl⟩

theorem congr (h : t.Counts computations columns labels client aborted done) (phase : Phase)
    (carry : Carry) (pages rows : Nat) :
    Traversal.Counts computations columns labels client aborted
      { t with phase, carry, stats := { pages, rows, groups := t.stats.groups } } done := by
  obtain ⟨values, hserved⟩ := h.served
  exact ⟨⟨values, hserved.congr phase carry _⟩, h.groups_eq⟩

/-- Steps that serve runs count them, and count nothing else. -/
theorem of_serves (h : t.Counts computations columns labels client aborted done)
    {m : TraversalM (σ × List Call) ω Unit} {runs : List Run}
    (hview : ∀ carry pages rows,
      TraversalM.Simulates (Traversal.counted carry pages rows) m m)
    (hserves : ∀ values, t.HasServed computations columns labels client aborted done values →
      t.Serves computations columns labels client aborted done values runs (TraversalM.exec m t))
    (hexec : TraversalM.exec m t = (.ok (), next)) :
    next.Counts computations columns labels client aborted (done ++ runs) ∧
      next.carry = t.carry ∧ next.stats.rows = t.stats.rows := by
  obtain ⟨values, hserved⟩ := h.served
  obtain ⟨hcarry, hstats⟩ := TraversalM.stats_of_exec hview h.groups_eq hexec
  have hends := hserves values hserved
  rw [hexec] at hends
  cases hends with
  | served hnext _ _ =>
      have hgroups : next.stats.groups = next.next := by rw [hstats]
      have hrows : next.stats.rows = t.stats.rows := by rw [hstats]
      exact ⟨⟨⟨_, hnext⟩, hgroups⟩, hcarry, hrows⟩

theorem dispatchAll (h : t.Counts computations columns labels client aborted done)
    {runs : List Run}
    (hexec : TraversalM.exec (TraversalM.dispatchAll (computations.map logged) runs) t =
      (.ok (), next)) :
    next.Counts computations columns labels client aborted (done ++ runs) ∧
      next.carry = t.carry ∧ next.stats.rows = t.stats.rows :=
  h.of_serves (fun carry pages rows => (isView_counted carry pages rows _).dispatchAll runs)
    (fun _ hserved => TraversalM.exec_dispatchAll_served hserved runs) hexec

theorem dispatchLast (h : t.Counts computations columns labels client aborted done)
    {last : Option Run}
    (hexec : TraversalM.exec (TraversalM.finish.dispatchLast (computations.map logged) last) t =
      (.ok (), next)) :
    next.Counts computations columns labels client aborted (done ++ last.toList) ∧
      next.carry = t.carry ∧ next.stats.rows = t.stats.rows := by
  cases last with
  | none => exact h.of_serves (fun _ _ _ => .pure ()) (fun _ hserved => .nil hserved) hexec
  | some run =>
      exact h.of_serves (fun carry pages rows => (isView_counted carry pages rows _).dispatch run)
        (fun _ hserved => TraversalM.exec_dispatch_served hserved run) hexec

/-- A page that is taken counts its rows and the runs that it completes. -/
theorem onPage (h : t.Counts computations columns labels client aborted done) {page : RowSet}
    (hexec : TraversalM.exec (TraversalM.onPage (computations.map logged) page) t =
      (.ok (), next)) :
    (t.carry.perform (.push page.rows)).1.isOk = true ∧
      next.carry = (t.carry.perform (.push page.rows)).2 ∧
      next.Counts computations columns labels client aborted
        (done ++ Carry.handedOut (t.carry.perform (.push page.rows)).1) ∧
      next.stats.rows = t.stats.rows + page.rows.length ∧ next.phase = .fetching := by
  obtain ⟨runs, mid, hanswer, hmid, rfl⟩ := TraversalM.exists_of_exec_onPage hexec
  obtain ⟨hcounts, hcarry, hrows⟩ := (h.congr t.phase (t.carry.pushPage page.rows).2
    (t.stats.pages + 1) (t.stats.rows + page.rows.length)).dispatchAll hmid
  rw [Carry.perform, hanswer]
  exact ⟨rfl, hcarry, hcounts.congr .fetching mid.carry mid.stats.pages mid.stats.rows, hrows, rfl⟩

/-- After pages that were taken the runs that they completed are counted, whatever page it is that
comes next. -/
theorem onPages (h : t.Counts computations columns labels client aborted done)
    (hphase : t.phase = .fetching) (pages : List RowSet)
    (hexec : TraversalM.exec (pages.forM (TraversalM.onPage (computations.map logged))) t =
      (.ok ⟨⟩, next)) :
    let outcome := t.carry.performAll (pages.map (.push ·.rows))
    (∀ answer ∈ outcome.1, answer.isOk = true) ∧ next.carry = outcome.2 ∧
      next.Counts computations columns labels client aborted
        (done ++ outcome.1.flatMap Carry.handedOut) ∧
      next.stats.rows = t.stats.rows + (pages.flatMap RowSet.rows).length ∧
      next.phase = .fetching := by
  induction pages generalizing t done with
  | nil =>
      cases hexec
      exact ⟨nofun, rfl, by simpa [Carry.performAll] using h, rfl, hphase⟩
  | cons page pages ih =>
      obtain ⟨_, mid, hmid, hrest⟩ := TraversalM.exists_of_exec_bind hexec
      obtain ⟨hok, hcarry, hcounts, hrows, hfetching⟩ := h.onPage hmid
      obtain ⟨hoks, hlast, hall, hmore, hend⟩ := ih hcounts hfetching hrest
      rw [hcarry] at hoks hlast hall
      refine ⟨List.forall_mem_cons.2 ⟨hok, hoks⟩, hlast, ?_, ?_, hend⟩
      · rw [List.append_assoc] at hall
        exact hall
      · rw [hmore, hrows, List.flatMap_cons, List.length_append, Nat.add_assoc]

/-- The last run is counted as well, and no rows are held any more. -/
theorem drain (h : t.Counts computations columns labels client aborted done)
    (hexec : TraversalM.exec (TraversalM.drain (computations.map logged)) t = (.ok (), next)) :
    next.Counts computations columns labels client aborted (done ++ t.last.toList) ∧
      next.next = labels.rows.length ∧ next.carry = t.carry.drain.2 ∧
      next.stats.rows = t.stats.rows ∧ next.phase = .done := by
  obtain ⟨mid, hmid, hcount, rfl⟩ := TraversalM.exists_of_exec_drain hexec
  have hdrained := h.congr .draining t.carry.drain.2 t.stats.pages t.stats.rows
  obtain ⟨hcounts, hcarry, hrows⟩ := hdrained.dispatchLast hmid
  obtain ⟨_, hserved⟩ := hcounts.served
  refine ⟨hcounts.congr .done mid.carry mid.stats.pages mid.stats.rows, ?_, hcarry, hrows, rfl⟩
  rw [← hserved.labels_eq]
  exact hcount

/-- With the rows in balance all of the books are. -/
theorem balanced (h : t.Counts computations columns labels client aborted done)
    (hrows : (done.flatMap Run.rows).length + t.carry.carriedRows = t.stats.rows) :
    t.Balanced labels computations.length done := by
  obtain ⟨values, hserved⟩ := h.served
  have hnext : t.next = done.length := hserved.given.next_eq
  refine ⟨fun c hc i => ?_, h.groups_eq.symm, h.groups_eq.trans hnext, ?_, hrows⟩
  · rw [slot, hserved.slots_eq, isSome_slotsOf hc hserved.served.width, hserved.served.length_eq,
      hnext]
  · rw [hnext]
    exact hserved.served.labelled.length_le

/-- When every label has its run no slot is empty. -/
theorem filled (h : t.Counts computations columns labels client aborted done)
    (hall : t.next = labels.rows.length) : ∀ column ∈ t.slots, none ∉ column := by
  obtain ⟨values, hserved⟩ := h.served
  have hlength : values.length = labels.rows.length :=
    hserved.served.length_eq.trans (hserved.given.next_eq.symm.trans hall)
  rw [hserved.slots_eq]
  intro column hcolumn
  obtain ⟨j, -, rfl⟩ := List.mem_map.1 hcolumn
  simp [hlength]

end Traversal.Counts

theorem Carry.carriedRows_drain (c : Carry) : c.drain.2.carriedRows = 0 := by
  cases hheld : c.held <;> simp [drain, carriedRows, hheld]

/-- The last run has the rows that were held back. -/
theorem Traversal.length_last (t : Traversal σ ω) :
    (t.last.toList.flatMap Run.rows).length = t.carry.carriedRows := by
  cases hheld : t.carry.held with
  | some run => simp [last, Carry.drain, Carry.carriedRows, OpenRun.close, hheld]
  | none =>
      by_cases hsingle : t.labels.columns = [] ∧ t.next = 0 <;>
        simp [last, Carry.drain, Carry.carriedRows, hheld, hsingle]

/-- The rows of pages that were taken are in the runs that they completed or held back. -/
theorem Carry.rows_performAll (keys : Nat) (pages : List RowSet)
    (hok : ∀ answer ∈ ((start keys).performAll (pages.map (.push ·.rows))).1,
      answer.isOk = true) :
    ((((start keys).performAll (pages.map (.push ·.rows))).1.flatMap handedOut).flatMap
        Run.rows).length + ((start keys).performAll (pages.map (.push ·.rows))).2.carriedRows =
      (pages.flatMap RowSet.rows).length := by
  obtain ⟨-, -, -, -, hrows⟩ := performAll_releases_once keys (pages.map (.push ·.rows))
  have hall := congrArg List.length (hrows hok)
  rw [List.length_append, length_heldRows, List.flatMap_map] at hall
  exact hall

/-! ## The phase -/

namespace TraversalM

/-- The page handler, which insists on being called between two pages. -/
def onPageAsserting (fault : Error) (computations : List (Computation σ ω)) (page : RowSet) :
    TraversalM σ ω Unit := do
  let t ← get
  if t.phase ≠ .fetching then throw fault
  onPage computations page

/-- As long as pages are taken each of them comes after the one before it has been dealt with. -/
theorem exec_onPagesAsserting (fault : Error) (computations : List (Computation σ ω))
    (pages : List RowSet) {t : Traversal σ ω} (hphase : t.phase = .fetching) :
    exec (pages.forM (onPageAsserting fault computations)) t =
      exec (pages.forM (onPage computations)) t := by
  induction pages generalizing t with
  | nil => rfl
  | cons page pages ih =>
      have hpage : exec (onPageAsserting fault computations page) t =
          exec (onPage computations page) t := by
        simp [onPageAsserting, exec_bind, hphase]
      rw [List.forM, List.forM, exec_bind, exec_bind, hpage]
      rcases hexec : exec (onPage computations page) t with ⟨e | _, next⟩
      · rfl
      · obtain ⟨_, mid, _, _, rfl⟩ := exists_of_exec_onPage hexec
        exact ih rfl

/-! ## Whole traversals -/

/-- The steps come to `t`, and the calls that are written down on the way are those of all
computations for these runs. -/
def ComesTo (computations : List (Computation σ ω)) (columns : List String) (done : List Run)
    (m : TraversalM (σ × List Call) ω Unit) (start : Traversal (σ × List Call) ω)
    (t : Traversal σ ω) : Prop :=
  ∃ s, exec m start = (.ok (), s) ∧ s.withoutLog = t ∧
    s.client.2 = (callsFor computations columns done).map fun x => (x.1.name, x.2)

end TraversalM

theorem Traversal.Counts.log_eq (h : t.Counts computations columns labels client aborted done) :
    t.client.2 = (callsFor computations columns done).map fun x => (x.1.name, x.2) := by
  obtain ⟨_, hserved⟩ := h.served
  rw [hserved.given.made.client_eq]

theorem Traversal.Balanced.withoutLog {n : Nat} (h : t.Balanced labels n done) :
    t.withoutLog.Balanced labels n done :=
  ⟨h.filled, h.next_eq, h.groups_eq, h.next_le, h.rows_eq⟩

/-- The end of the rows leaves the books in balance, and with a run for every label. -/
theorem Traversal.Counts.exec_drain
    (h : t.Counts computations columns labels client aborted done)
    (hrows : (done.flatMap Run.rows).length + t.carry.carriedRows = t.stats.rows)
    (hexec : TraversalM.exec (TraversalM.drain (computations.map logged)) t = (.ok (), next)) :
    next.phase = .done ∧
      next.Counts computations columns labels client aborted (done ++ t.last.toList) ∧
      next.Balanced labels computations.length (done ++ t.last.toList) ∧
      next.next = labels.rows.length ∧ next.carry.carriedRows = 0 := by
  obtain ⟨hcounts, hall, hcarry, hstats, hphase⟩ := h.drain hexec
  have hcarried : next.carry.carriedRows = 0 := hcarry ▸ t.carry.carriedRows_drain
  refine ⟨hphase, hcounts, hcounts.balanced ?_, hall, hcarried⟩
  rw [List.flatMap_append, List.length_append, length_last, hcarried, hstats, Nat.add_zero, hrows]

namespace TraversalM

/-- After pages that were taken, none at first, a traversal waits for the next one, and its books
are in balance: the runs that the pages have completed were given to the computations and counted,
and every slot before the next group is filled. If the rows end well the traversal is done, every
slot is filled, and the results can be put together as far as the number of groups goes. No page
comes at the wrong time. -/
theorem exec_onPages_balanced (computations : List (Computation σ ω)) (columns : List String)
    (keys : Nat) (labels : RowSet) (client : σ) (aborted : Bool) (pages : List RowSet) :
    let start : Traversal σ ω := .start columns keys computations.length labels client aborted
    let logging : Traversal (σ × List Call) ω :=
      .start columns keys computations.length labels (client, []) aborted
    let answers := ((Carry.start keys).performAll (pages.map (.push ·.rows))).1
    let done := answers.flatMap Carry.handedOut
    (∀ t, exec (pages.forM (onPage computations)) start = (.ok ⟨⟩, t) →
      (∀ answer ∈ answers, answer.isOk = true) ∧ t.phase = .fetching ∧
      t.Balanced labels computations.length done ∧
      ComesTo computations columns done
        (pages.forM (onPage (computations.map logged))) logging t ∧
      ∀ final, exec (drain computations) t = (.ok (), final) →
        final.phase = .done ∧
        final.Balanced labels computations.length (done ++ t.last.toList) ∧
        ComesTo computations columns (done ++ t.last.toList)
          (pages.forM (onPage (computations.map logged)) >>= fun _ =>
            drain (computations.map logged)) logging final ∧
        final.next = labels.rows.length ∧ final.carry.carriedRows = 0 ∧
        (∀ c < computations.length, ∀ i < labels.rows.length,
          (final.slot c i).isSome = true) ∧
        ∀ names expected found, Output.assemble labels names final.slots ≠
          .error (.groupCountMismatch expected found)) ∧
    ∀ fault, exec (pages.forM (onPageAsserting fault computations)) start =
      exec (pages.forM (onPage computations)) start := by
  intro start logging answers done
  refine ⟨fun t hexec => ?_, fun fault => exec_onPagesAsserting fault computations pages rfl⟩
  obtain ⟨s, hs, rfl⟩ :=
    (simulates_onPages_logged computations pages).exists_of_ok (t := logging) hexec
  obtain ⟨hok, hcarry, hcounts, hstats, hphase⟩ :=
    (Traversal.Counts.start computations columns keys labels client aborted).onPages rfl pages hs
  have hrows : (done.flatMap Run.rows).length + s.carry.carriedRows = s.stats.rows := by
    rw [hcarry, hstats]
    exact (Carry.rows_performAll keys pages hok).trans (Nat.zero_add _).symm
  refine ⟨hok, hphase, (hcounts.balanced hrows).withoutLog, ⟨s, hs, rfl, hcounts.log_eq⟩,
    fun final hfinal => ?_⟩
  obtain ⟨u, hu, rfl⟩ := (simulates_drain_logged computations).exists_of_ok hfinal
  obtain ⟨hend, hall, hbalanced, hnext, hcarried⟩ := hcounts.exec_drain hrows hu
  have hrun := (exec_bind_of_ok hs fun _ => drain (computations.map logged)).trans hu
  refine ⟨hend, hbalanced.withoutLog, ⟨u, hrun, rfl, hall.log_eq⟩, hnext, hcarried,
    fun c hc i hi => (hbalanced.filled c hc i).2 (hnext.symm ▸ hi), ?_⟩
  intro names expected found herror
  obtain ⟨column, hcolumn, hgap⟩ :=
    (Output.assemble_mismatch_iff labels names u.slots).1 ⟨expected, found, herror⟩
  exact hall.filled hnext column hcolumn hgap

/-- A group that goes on over an empty page and one with a null key that is held back. -/
theorem exec_onPages_balanced_splitGroup :
    let page (rows : List Row) : RowSet := { columns := ["g", "v"], rows }
    let pages : List RowSet :=
      [page [[.utf8 "a", .int64 1], [.utf8 "a", .int64 2]], page [],
        page [[.utf8 "a", .int64 3], [.null, .int64 4]]]
    let labels : RowSet := { columns := ["g"], rows := [[.utf8 "a"], [.null]] }
    let count (name : String) : Computation Nat Empty :=
      { name := some name
        run := fun group calls =>
          { value := .ok (.table group.rows), state := calls + 1, abort := false } }
    let computations := [count "m", count "n"]
    let first : Run :=
      ⟨[.utf8 "a"], [[.utf8 "a", .int64 1], [.utf8 "a", .int64 2], [.utf8 "a", .int64 3]]⟩
    let start : Traversal Nat Empty := .start ["g", "v"] 1 2 labels 0 false
    ∃ t final, exec (pages.forM (onPage computations)) start = (.ok ⟨⟩, t) ∧
      t.Balanced labels 2 [first] ∧ t.next = 1 ∧
      exec (drain computations) t = (.ok (), final) ∧
      final.Balanced labels 2 (first :: t.last.toList) ∧ final.next = 2 ∧
      ∀ names expected found, Output.assemble labels names final.slots ≠
        .error (.groupCountMismatch expected found) := by
  intro page pages labels count computations first start
  have hok : (exec (pages.forM (onPage computations) >>= fun _ => drain computations)
      start).1.isOk = true := by
    decide +kernel
  rcases hexec : exec (pages.forM (onPage computations) >>= fun _ => drain computations) start with
    ⟨e | _, final⟩
  · rw [hexec] at hok
    cases hok
  obtain ⟨_, t, ht, hfinal⟩ := exists_of_exec_bind hexec
  have hdone : (((Carry.start 1).performAll (pages.map (.push ·.rows))).1.flatMap
      Carry.handedOut) = [first] := by
    decide +kernel
  obtain ⟨-, -, hbalanced, -, hdrain⟩ :=
    (exec_onPages_balanced computations ["g", "v"] 1 labels 0 false pages).1 t ht
  obtain ⟨-, hend, -, hnext, -, -, hmismatch⟩ := hdrain final hfinal
  rw [hdone] at hbalanced hend
  exact ⟨t, final, ht, hbalanced, hbalanced.next_eq.trans hbalanced.groups_eq, hfinal, hend, hnext,
    hmismatch⟩

end TraversalM

end SqlChain
