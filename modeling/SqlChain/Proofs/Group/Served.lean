import SqlChain.Proofs.Group.Due

/-!
# Runs that are served

A run is served by calling all computations for it. It is when it is the next label, when no abort
was requested before, and when no computation fails (`Served`), and then the values are in its
slots. A traversal that does not serve a run halts there (`Breaks`). Page by page, `Traversal.Ended`
says of a traversal which course it takes, which values it leaves behind, and that its calls were
made in time (`Timely`).
-/

namespace SqlChain

open SqlChain.Computation

variable {σ ω : Type}

/-! ## One run after another -/

section

variable (computations : List (Computation σ ω)) (columns : List String) (labels : RowSet)
  (client : σ) (aborted : Bool)

/-- Each of these runs is the next label, no abort was requested before it, and the computations
return these values for it. -/
structure Served (runs : List Run) (values : List (List (GroupValue ω))) : Prop where
  labelled : Matches labels.rows runs
  undisturbed : Undisturbed computations columns client aborted runs
  length_eq : values.length = runs.length
  width : ∀ vs ∈ values, vs.length = computations.length
  returned : Return (callsFor computations columns runs) client values.flatten

/-- These runs were served, and nothing else. -/
structure Traversal.HasServed (t : Traversal (σ × List Call) ω) (runs : List Run)
    (values : List (List (GroupValue ω))) : Prop where
  given : t.HasGiven computations columns client aborted runs
  served : Served computations columns labels client aborted runs values
  labels_eq : t.labels = labels
  slots_eq : t.slots = slotsOf computations.length labels.rows.length values

/-- A traversal that comes to a run after these halts at it. No call was made after one that
failed, and none for a run that is not the next label. -/
structure Breaks (done : List Run) (run : Run) (made : List (Computation σ ω × Group))
    (error : Error) : Prop where
  halts : Halts computations columns client aborted done run made error
  returned : ∀ before call after, made = before ++ call :: after →
    ∃ values, Return before client values
  labelled : made = callsFor computations columns done ∨ Matches labels.rows (done ++ [run])

/-- What is left when these runs come after others that were served. Either they were served as
well, or the traversal halted at one of them. -/
inductive Traversal.Serves (t : Traversal (σ × List Call) ω) (done : List Run)
    (values : List (List (GroupValue ω))) (runs : List Run) :
    Except Error Unit × Traversal (σ × List Call) ω → Prop
  | served {next : Traversal (σ × List Call) ω} {new : List (List (GroupValue ω))}
      (h : next.HasServed computations columns labels client aborted (done ++ runs) (values ++ new))
      (hcarry : next.carry = t.carry) (hpages : next.stats.pages = t.stats.pages) :
      Serves t done values runs (.ok (), next)
  | broken {front : List Run} {run : Run} {back : List Run} {new : List (List (GroupValue ω))}
      {next : Traversal (σ × List Call) ω} {made : List (Computation σ ω × Group)} {error : Error}
      (hruns : runs = front ++ run :: back)
      (hserved : Served computations columns labels client aborted (done ++ front) (values ++ new))
      (hbreaks : Breaks computations columns labels client aborted (done ++ front) run made error)
      (hmade : next.HasMade client aborted made) (hpages : next.stats.pages = t.stats.pages) :
      Serves t done values runs (.error error, next)

end

variable {computations : List (Computation σ ω)} {columns : List String} {labels : RowSet}
  {client : σ} {aborted : Bool} {done : List Run} {values : List (List (GroupValue ω))}
  {t : Traversal (σ × List Call) ω}

theorem Served.concat (h : Served computations columns labels client aborted done values)
    (hasked : asked aborted (callsFor computations columns done) client = false) {run : Run}
    (hlabel : Matches labels.rows (done ++ [run])) {vs : List (GroupValue ω)}
    (hlength : vs.length = computations.length)
    (hreturn : Return (computations.map (·, Group.next columns done run))
      (replay (callsFor computations columns done) client).1 vs) :
    Served computations columns labels client aborted (done ++ [run]) (values ++ [vs]) where
  labelled := hlabel
  undisturbed := h.undisturbed.concat hasked run
  length_eq := by simp [h.length_eq]
  width := List.forall_mem_append.2 ⟨h.width, by simpa using hlength⟩
  returned := by
    rw [callsFor_concat, List.flatten_concat]
    exact h.returned.append hreturn

/-- The calls for runs that were served have all returned. -/
theorem Served.breaks (h : Served computations columns labels client aborted done values)
    {run : Run} {error : Error}
    (hhalts : Halts computations columns client aborted done run
      (callsFor computations columns done) error) :
    Breaks computations columns labels client aborted done run (callsFor computations columns done)
      error :=
  ⟨hhalts, fun _ call after hmade => h.returned.of_isPrefix ⟨call :: after, hmade.symm⟩, .inl rfl⟩

/-- The traversal at another place of its rows. -/
theorem Traversal.HasServed.congr
    (h : t.HasServed computations columns labels client aborted done values) (phase : Phase)
    (carry : Carry) (stats : Stats) :
    Traversal.HasServed computations columns labels client aborted { t with phase, carry, stats }
      done values :=
  ⟨h.given.congr phase carry stats, h.served, h.labels_eq, h.slots_eq⟩

namespace Traversal.Serves

variable {runs : List Run}

/-- Nothing is left to do for no runs. -/
theorem nil (h : t.HasServed computations columns labels client aborted done values) :
    t.Serves computations columns labels client aborted done values [] (.ok (), t) := by
  have hall : t.HasServed computations columns labels client aborted (done ++ [])
      (values ++ []) := by
    simpa using h
  exact .served hall rfl rfl

/-- The traversal halts at a run that comes right after those that were served. -/
theorem halt (h : t.HasServed computations columns labels client aborted done values) {run : Run}
    {made : List (Computation σ ω × Group)} {error : Error}
    {next : Traversal (σ × List Call) ω} (hmade : next.HasMade client aborted made)
    (hpages : next.stats.pages = t.stats.pages)
    (hbreaks : Breaks computations columns labels client aborted done run made error) :
    t.Serves computations columns labels client aborted done values (run :: runs)
      (.error error, next) := by
  have hserved : Served computations columns labels client aborted (done ++ []) (values ++ []) := by
    simpa using h.served
  have hlast : Breaks computations columns labels client aborted (done ++ []) run made error := by
    simpa using hbreaks
  exact .broken (List.nil_append _).symm hserved hlast hmade hpages

/-- One run is served before the others. -/
theorem cons {mid : Traversal (σ × List Call) ω} {run : Run} {vs : List (List (GroupValue ω))}
    {ended : Except Error Unit × Traversal (σ × List Call) ω} (hcarry : mid.carry = t.carry)
    (hpages : mid.stats.pages = t.stats.pages)
    (h : mid.Serves computations columns labels client aborted (done ++ [run]) (values ++ vs) runs
      ended) :
    t.Serves computations columns labels client aborted done values (run :: runs) ended := by
  cases h with
  | served hnext hcarry' hpages' =>
      rw [List.append_assoc, List.append_assoc] at hnext
      exact .served hnext (hcarry'.trans hcarry) (hpages'.trans hpages)
  | @broken front last back new next made error hruns hserved hbreaks hmade hpages' =>
      rw [List.append_assoc] at hserved hbreaks
      rw [List.append_assoc] at hserved
      have hsplit : run :: runs = ([run] ++ front) ++ last :: back := by rw [hruns]; rfl
      exact .broken hsplit hserved hbreaks hmade (hpages'.trans hpages)

end Traversal.Serves

namespace TraversalM

/-- A run that is the next label is served unless a computation fails. -/
theorem exec_dispatch_served_of_label
    (h : t.HasServed computations columns labels client aborted done values) {run : Run}
    {label : Row} (hflag : t.aborted = false) (hrow : t.labels.rows[t.next]? = some label)
    (hk : GroupKey.equal label run.key = true) :
    t.Serves computations columns labels client aborted done values [run]
      (exec (dispatch (computations.map logged) run) t) := by
  have hasked : asked aborted (callsFor computations columns done) client = false :=
    h.given.made.aborted_eq.symm.trans hflag
  have hmatches : Matches labels.rows (done ++ [run]) := by
    rw [h.labels_eq, h.given.next_eq] at hrow
    exact Matches.concat_iff.2 ⟨h.served.labelled, label, hrow, hk⟩
  have hgroup : Group.next columns done run =
      { index := t.next, key := run.key, rows := { columns := t.columns, rows := run.rows } } := by
    rw [h.given.columns_eq, h.given.next_eq, Group.next]
  rw [exec_dispatch_labelled (computations.map logged) run hflag hrow hk hgroup]
  obtain ⟨next, hplace, hstats, hcalls⟩ :=
    exec_callAll_logged h.given.made (Group.next columns done run) 0 computations
  have hpages : next.stats.pages = t.stats.pages := congrArg Stats.pages hstats
  rcases hcalls with ⟨vs, hlength, hreturn, hexec, hmade, hslots⟩ |
    ⟨front, c, reason, hfront, ⟨vs, hreturn⟩, hfailed, hexec, hmade⟩
  · rw [← callsFor_concat] at hmade
    rw [exec_bind_of_ok hexec]
    refine .served ⟨⟨?_, ?_, ?_, ?_⟩, h.served.concat hasked hmatches hlength hreturn, ?_, ?_⟩
      hplace.carry_eq hpages
    · exact hplace.columns_eq.trans h.given.columns_eq
    · simp [hplace.next_eq, h.given.next_eq]
    · exact ⟨hmade.client_eq, hmade.aborted_eq⟩
    · exact h.given.undisturbed.concat hasked run
    · exact hplace.labels_eq.trans h.labels_eq
    · have hfree : values.length < labels.rows.length := by
        rw [h.served.length_eq, ← h.given.next_eq, ← h.labels_eq]
        exact (List.getElem?_eq_some_iff.1 hrow).1
      change next.slots = _
      rw [hslots, h.slots_eq, Group.next, ← h.served.length_eq]
      exact fillFrom_slotsOf hfree h.served.width hlength
  · rw [exec_bind_of_error hexec]
    refine .halt h hmade hpages ⟨.failed hasked (hfront.map _) ?_, ?_, .inr hmatches⟩
    · exact ⟨_, c, _, reason, by simp, rfl, hfailed, rfl⟩
    · -- the call that failed is the last one, and the others are in front of it
      intro before call after hcalls
      rw [List.map_append, ← List.append_assoc] at hcalls
      have hbefore : before <+: _ := ⟨call :: after, hcalls.symm⟩
      rcases List.prefix_concat_iff.1 hbefore with heq | hbefore
      · rw [heq] at hcalls
        simpa using congrArg List.length hcalls
      · exact (h.served.returned.append hreturn).of_isPrefix hbefore

theorem exec_dispatch_served
    (h : t.HasServed computations columns labels client aborted done values) (run : Run) :
    t.Serves computations columns labels client aborted done values [run]
      (exec (dispatch (computations.map logged) run) t) := by
  have hasked := h.given.made.aborted_eq
  cases hflag : t.aborted with
  | true =>
      rw [hflag] at hasked
      have hexec : exec (dispatch (computations.map logged) run) t =
          (.error (.cancelled done.length), t) := by
        simp [dispatch, exec_bind, hflag, h.given.next_eq]
      rw [hexec]
      exact .halt h h.given.made rfl (h.served.breaks (.cancelled hasked.symm))
  | false =>
      rw [hflag] at hasked
      by_cases hlabel : ∃ label, t.labels.rows[t.next]? = some label ∧
          GroupKey.equal label run.key = true
      · obtain ⟨label, hrow, hk⟩ := hlabel
        exact exec_dispatch_served_of_label h hflag hrow hk
      · obtain ⟨error, hkind, hexec⟩ : ∃ error : Error, error.NotCancelled ∧
            exec (dispatch (computations.map logged) run) t = (.error error, t) :=
          exec_dispatch_of_no_label hflag hlabel
        rw [hexec]
        exact .halt h h.given.made rfl (h.served.breaks (.unlabelled hasked.symm hkind))

theorem exec_dispatchAll_served
    (h : t.HasServed computations columns labels client aborted done values) (runs : List Run) :
    t.Serves computations columns labels client aborted done values runs
      (exec (dispatchAll (computations.map logged) runs) t) := by
  induction runs generalizing t done values with
  | nil => exact .nil h
  | cons run rest ih =>
      have hrun := exec_dispatch_served (h.congr .groupComplete t.carry t.stats) run
      rw [dispatchAll, exec_bind_of_ok (exec_enter _ _), exec_bind]
      generalize exec (dispatch (computations.map logged) run) _ = ended at hrun ⊢
      cases hrun with
      | served hmid hcarry hpages => exact .cons hcarry hpages (ih hmid)
      | @broken front last back _ _ _ _ hruns hserved hbreaks hmade hpages =>
          have hsplit : run :: rest = front ++ last :: (back ++ rest) := by
            rw [← List.singleton_append, hruns, List.append_assoc, List.cons_append]
          exact .broken hsplit hserved hbreaks hmade hpages

end TraversalM

/-! ## Whatever was called was called in time -/

theorem Undisturbed.take {runs : List Run}
    (h : Undisturbed computations columns client aborted runs) {i : Nat} (hi : i < runs.length) :
    asked aborted (callsFor computations columns (runs.take i)) client = false := by
  refine h _ (List.take_prefix i runs) fun htake => ?_
  have hlength := congrArg List.length htake
  rw [List.length_take] at hlength
  omega

section

variable (computations : List (Computation σ ω)) (columns : List String) (labels : RowSet)
  (client : σ) (aborted : Bool)

/-- When a computation is called for a group, no computation has failed, no abort was requested
before the group, and the groups up to this one are the labels. -/
def Timely (due : List Run) (made : List (Computation σ ω × Group)) : Prop :=
  ∀ before c group after, made = before ++ (c, group) :: after →
    (∃ values, Return before client values) ∧
    asked aborted (callsFor computations columns (due.take group.index)) client = false ∧
    Matches labels.rows (due.take (group.index + 1))

end

theorem timely_of_index_lt {runs due : List Run} {made : List (Computation σ ω × Group)}
    (hquiet : Undisturbed computations columns client aborted runs)
    (hlabels : Matches labels.rows runs) (hdue : runs <+: due)
    (hindex : ∀ x ∈ made, x.2.index < runs.length)
    (hreturn : ∀ before call after, made = before ++ call :: after →
      ∃ values, Return before client values) :
    Timely computations columns labels client aborted due made := by
  intro before c group after hmade
  have hlt : group.index < runs.length := hindex (c, group) (by simp [hmade])
  have htake : ∀ n ≤ runs.length, due.take n = runs.take n := by
    obtain ⟨back, rfl⟩ := hdue
    exact fun n hn => List.take_append_of_le_length hn
  refine ⟨hreturn _ _ _ hmade, ?_, ?_⟩
  · rw [htake _ hlt.le]
    exact hquiet.take hlt
  · rw [htake _ hlt]
    rw [← List.take_append_drop (group.index + 1) runs] at hlabels
    exact hlabels.of_append

theorem Served.timely {runs due : List Run}
    (h : Served computations columns labels client aborted runs values) (hdue : runs <+: due) :
    Timely computations columns labels client aborted due (callsFor computations columns runs) := by
  refine timely_of_index_lt h.undisturbed h.labelled hdue (fun x hx => ?_) ?_
  · obtain ⟨i, hi, hgroup⟩ := exists_of_mem_callsFor hx
    rw [hgroup]
    exact hi
  · exact fun before call after hmade => h.returned.of_isPrefix ⟨call :: after, hmade.symm⟩

theorem Breaks.timely {run : Run} {made : List (Computation σ ω × Group)} {error : Error}
    {due : List Run} (h : Breaks computations columns labels client aborted done run made error)
    (hserved : Served computations columns labels client aborted done values)
    (hdue : done ++ [run] <+: due) :
    Timely computations columns labels client aborted due made := by
  have hdone : done <+: due := (List.prefix_append _ _).trans hdue
  rcases h.labelled with rfl | hlabel
  · exact hserved.timely hdone
  cases h.halts with
  | cancelled | unlabelled => exact hserved.timely hdone
  | failed hasked hfront =>
      refine timely_of_index_lt (hserved.undisturbed.concat hasked run) hlabel hdue (fun x hx => ?_)
        h.returned
      rw [List.length_append, List.length_singleton]
      rcases List.mem_append.1 hx with hx | hx
      · obtain ⟨i, hi, hgroup⟩ := exists_of_mem_callsFor hx
        rw [hgroup]
        exact Nat.lt_succ_of_lt hi
      · rw [Group.index_of_mem_next (hfront.subset hx)]
        exact Nat.lt_succ_self _

/-! ## One page after another -/

section

variable (computations : List (Computation σ ω)) (columns : List String) (labels : RowSet)
  (client : σ) (aborted : Bool)

/-- The rows come in order, and the runs that have ended within them were served. -/
structure Smooth (keys : Nat) (rows : List Row) : Prop where
  orderly : Orderly keys rows
  served : ∃ values,
    Served computations columns labels client aborted (Run.split keys rows).dropLast values

/-- What is left of a traversal for which these runs were due, and that took so many of the pages
that came after these rows. -/
structure Traversal.Ended (keys : Nat) (rows : List Row) (feed : Feed) (due : List Run)
    (made : List (Computation σ ω × Group)) (taken : Nat)
    (ended : Except Error Unit × Traversal (σ × List Call) ω) : Prop where
  hasMade : ended.2.HasMade client aborted made
  course : Course computations columns client aborted due made ended.1
  timely : Timely computations columns labels client aborted due made
  taken_le : taken ≤ feed.pages.length
  smooth : ∀ n < taken, Smooth computations columns labels client aborted keys
    (rows ++ (feed.pages.take n).flatMap RowSet.rows)
  of_ok : ended.1 = .ok () → taken = feed.pages.length ∧ feed.failure = none ∧
    Orderly keys (rows ++ feed.pages.flatMap RowSet.rows) ∧ due.length = labels.rows.length ∧
    ∃ values, ended.2.HasServed computations columns labels client aborted due values

end

namespace TraversalM

variable {keys : Nat} {rows : List Row}

/-- The last run is served, and then there are as many runs as labels. Otherwise the traversal
fails. -/
theorem exec_finish_ended (horderly : Orderly keys rows)
    (h : t.HasServed computations columns labels client aborted done values) (last : Option Run) :
    let ended := exec (finish (computations.map logged) last) t
    ∃ made, ended.2.stats.pages = t.stats.pages ∧
      Traversal.Ended computations columns labels client aborted keys rows ⟨[], none⟩
        (done ++ last.toList) made 0 ended := by
  intro ended
  have hlast : t.Serves computations columns labels client aborted done values last.toList
      (exec (finish.dispatchLast (computations.map logged) last) t) := by
    cases last with
    | none => exact .nil h
    | some run => exact exec_dispatch_served h run
  rcases hexec : exec (finish.dispatchLast (computations.map logged) last) t with ⟨answer, mid⟩
  rw [hexec] at hlast
  cases hlast with
  | served hmid _ hpages =>
      obtain ⟨answer, phase, hfinish, hkind, hlength⟩ := exec_finish_of_ok hexec
      have hnext := hmid.congr phase mid.carry mid.stats
      have hended : ended = _ := hfinish
      rw [hended]
      refine ⟨_, hpages, hnext.given.made, .completed hmid.given.undisturbed hkind,
        hmid.served.timely List.prefix_rfl, le_rfl, by simp,
        fun hok => ⟨rfl, rfl, by simpa using horderly, ?_, _, hnext⟩⟩
      rw [← hmid.given.next_eq, ← hmid.labels_eq]
      exact hlength hok
  | @broken front run back _ _ made error hruns hserved hbreaks hmade hpages =>
      have hended : ended = (.error error, mid) := exec_bind_of_error hexec _
      have hdue : done ++ last.toList = (done ++ front) ++ run :: back := by simp [hruns]
      rw [hended]
      refine ⟨made, hpages, hmade, .halted hdue hserved.undisturbed hbreaks.halts,
        hbreaks.timely hserved (hdue ▸ ⟨back, by simp⟩), le_rfl, by simp, ?_⟩
      rintro ⟨⟩

/-- Where no further page comes nothing more is taken. -/
theorem exec_run_nil_ended (failure : Option String) (hrows : ∀ row ∈ rows, keys ≤ row.length)
    (hcarry : t.carry.Follows keys rows done)
    (h : t.HasServed computations columns labels client aborted done values) :
    let ended := exec (run (computations.map logged) ⟨[], failure⟩) t
    ∃ made, ended.2.stats.pages = t.stats.pages ∧
      Traversal.Ended computations columns labels client aborted keys rows ⟨[], failure⟩
        (dueFrom keys t.labels.columns.isEmpty failure rows []) made 0 ended := by
  intro ended
  cases failure with
  | some reason =>
      rw [dueFrom, ← hcarry.closed_eq]
      refine ⟨_, rfl, h.given.made, .completed h.given.undisturbed (.error trivial),
        h.served.timely List.prefix_rfl, le_rfl, by simp, ?_⟩
      rintro ⟨⟩
  | none =>
      have hdrain : ended = exec (drain (computations.map logged)) t := rfl
      rw [hdrain, exec_drain, ← Traversal.append_last_eq_due hcarry h.given.next_eq]
      exact exec_finish_ended ⟨hrows, hcarry.inOrder⟩ (h.congr .draining t.carry.drain.2 t.stats)
        t.last

/-- A page at which the traversal stops is the last one that is taken. -/
theorem exec_run_cons_ended {page : RowSet} {next : Traversal (σ × List Call) ω}
    {made : List (Computation σ ω × Group)} {due : List Run} {error : Error}
    (hsmooth : Smooth computations columns labels client aborted keys rows)
    (hexec : exec (onPage (computations.map logged) page) t = (.error error, next))
    (hpages : next.stats.pages = t.stats.pages + 1) (hmade : next.HasMade client aborted made)
    (hcourse : Course computations columns client aborted due made (.error error))
    (htimely : Timely computations columns labels client aborted due made)
    {failure : Option String} {pages : List RowSet} :
    let ended := exec (run (computations.map logged) ⟨page :: pages, failure⟩) t
    ∃ made taken, ended.2.stats.pages = t.stats.pages + taken ∧
      Traversal.Ended computations columns labels client aborted keys rows ⟨page :: pages, failure⟩
        due made taken ended := by
  intro ended
  have hended : ended = (.error error, next) := exec_run_cons_of_error hexec failure pages
  rw [hended]
  refine ⟨made, 1, hpages, hmade, hcourse, htimely, by simp, fun n hn => ?_, ?_⟩
  · obtain rfl : n = 0 := Nat.lt_one_iff.1 hn
    simpa using hsmooth
  · rintro ⟨⟩

theorem exec_run_ended {single : Bool} (hsingle : labels.columns.isEmpty = single)
    (hrows : ∀ row ∈ rows, keys ≤ row.length) (hcarry : t.carry.Follows keys rows done)
    (h : t.HasServed computations columns labels client aborted done values)
    (failure : Option String) (pages : List RowSet) :
    let ended := exec (run (computations.map logged) ⟨pages, failure⟩) t
    ∃ made taken, ended.2.stats.pages = t.stats.pages + taken ∧
      Traversal.Ended computations columns labels client aborted keys rows ⟨pages, failure⟩
        (dueFrom keys single failure rows pages) made taken ended := by
  induction pages generalizing t rows done values with
  | nil =>
      obtain ⟨made, hpages, hended⟩ := exec_run_nil_ended failure hrows hcarry h
      rw [h.labels_eq, hsingle] at hended
      exact ⟨made, 0, hpages, hended⟩
  | cons page pages ih =>
      have hsmooth : Smooth computations columns labels client aborted keys rows :=
        ⟨⟨hrows, hcarry.inOrder⟩, values, hcarry.closed_eq ▸ h.served⟩
      have hpage : exec (onPage (computations.map logged) page) t = _ :=
        Traversal.Follows.exec_onPage_eq page
      by_cases horderly : Orderly keys (rows ++ page.rows)
      · obtain ⟨runs, carry, hpush, hnext⟩ := hcarry.pushRows []
          (fun row hr => horderly.1 row (List.mem_append_right _ hr)) horderly.2
        simp only [Carry.pushPage, hpush, List.reverse_nil, List.nil_append] at hpage
        have hdue : dueFrom keys single failure rows (page :: pages) =
            dueFrom keys single failure (rows ++ page.rows) pages := if_pos horderly
        rw [hdue]
        have hruns := exec_dispatchAll_served (h.congr t.phase carry
          { pages := t.stats.pages + 1
            rows := t.stats.rows + page.rows.length
            groups := t.stats.groups }) runs
        rw [exec_bind] at hpage
        generalize exec (dispatchAll (computations.map logged) runs) _ = answer at hpage hruns
        cases hruns with
        | @served mid _ hmid hmidCarry hmidPages =>
            obtain ⟨made, taken, hpages, hended⟩ := ih horderly.1 (by rwa [hmidCarry])
              (hmid.congr .fetching mid.carry mid.stats)
            rw [exec_run_cons_of_ok hpage]
            refine ⟨made, taken + 1, ?_, hended.hasMade, hended.course, hended.timely, ?_, ?_, ?_⟩
            · change mid.stats.pages = t.stats.pages + 1 at hmidPages
              rw [hpages, hmidPages, Nat.add_assoc, Nat.add_comm 1]
            · simpa using hended.taken_le
            · rintro (_ | n) hn
              · simpa using hsmooth
              · simpa using hended.smooth n (Nat.lt_of_succ_lt_succ hn)
            · intro hok
              obtain ⟨htaken, hfailure, hall, hlength, hserved⟩ := hended.of_ok hok
              exact ⟨congrArg (· + 1) htaken, hfailure, by simpa using hall, hlength, hserved⟩
        | @broken front run back _ _ _ _ hsplit hserved hbreaks hmade hcount =>
            -- what the page completes stays due, whatever the later pages bring
            obtain ⟨later, hlater⟩ := dropLast_split_isPrefix_dueFrom keys single failure
              (rows ++ page.rows) pages
            rw [← hnext.closed_eq, hsplit] at hlater
            have hdue : dueFrom keys single failure (rows ++ page.rows) pages =
                (done ++ front) ++ run :: (back ++ later) := by
              simp [← hlater]
            exact exec_run_cons_ended hsmooth hpage hcount hmade
              (.halted hdue hserved.undisturbed hbreaks.halts)
              (hbreaks.timely hserved (hdue ▸ ⟨back ++ later, by simp⟩))
      · -- a page that is refused takes the runs that it completes with it
        have hpageBad : ¬ ((∀ row ∈ page.rows, keys ≤ row.length) ∧
            InOrder keys (rows ++ page.rows)) := fun hgood =>
          horderly ⟨List.forall_mem_append.2 ⟨hrows, hgood.1⟩, hgood.2⟩
        obtain ⟨error, herror⟩ := hcarry.pushRows_refused [] hpageBad
        have hkind := t.carry.failsWith_pushRows [] page.rows error herror
        rw [Carry.pushPage, herror] at hpage
        have hdue : dueFrom keys single failure rows (page :: pages) = done :=
          (if_neg horderly).trans hcarry.closed_eq.symm
        rw [hdue]
        exact exec_run_cons_ended hsmooth hpage rfl (h.given.congr ..).made
          (.completed h.given.undisturbed (.error hkind)) (h.served.timely List.prefix_rfl)

end TraversalM

/-- Nothing was served at the start. -/
theorem Traversal.hasServed_start (computations : List (Computation σ ω)) (columns : List String)
    (keys : Nat) (labels : RowSet) (client : σ) (aborted : Bool) :
    Traversal.HasServed computations columns labels client aborted
      (.start columns keys computations.length labels (client, []) aborted) [] [] := by
  have hquiet : Undisturbed computations columns client aborted [] :=
    fun done hdone hne => absurd (List.prefix_nil.1 hdone) hne
  have hserved : Served computations columns labels client aborted [] [] :=
    ⟨fun i run hrun => by simp at hrun, hquiet, rfl, by simp, rfl⟩
  exact ⟨⟨rfl, rfl, ⟨rfl, (Bool.or_false aborted).symm⟩, hquiet⟩, hserved, rfl,
    by simp [Traversal.start, slotsOf]⟩

namespace TraversalM

/-- A whole traversal, which counts the pages that it takes. -/
theorem exec_run_start_ended (computations : List (Computation σ ω)) (columns : List String)
    (keys : Nat) (labels : RowSet) (client : σ) (aborted : Bool) (feed : Feed) :
    let ended := exec (run (computations.map logged) feed)
      (.start columns keys computations.length labels (client, []) aborted)
    ∃ made, Traversal.Ended computations columns labels client aborted keys [] feed
      (feed.due keys labels.columns.isEmpty) made ended.2.stats.pages ended := by
  intro ended
  have hstart := Traversal.hasServed_start computations columns keys labels client aborted
  obtain ⟨made, taken, hpages, hended⟩ := exec_run_ended rfl (List.forall_mem_nil _)
    (Carry.follows_start keys) hstart feed.failure feed.pages
  obtain rfl : ended.2.stats.pages = taken := hpages.trans (Nat.zero_add taken)
  exact ⟨made, hended⟩

end TraversalM

end SqlChain
