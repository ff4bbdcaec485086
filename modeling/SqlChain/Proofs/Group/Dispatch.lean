import SqlChain.Group.Traversal
import SqlChain.Proofs.Group.Runs

/-!
# Groups given to the computations

`TraversalM.exec` runs a step of a traversal, and one lemma for each step says what it does to the
state. `Computation.replay` makes calls outside of any traversal. `Traversal.Dispatched` says of a
traversal that its client and its slots are what replaying the calls for the groups so far makes
of them.
-/

namespace SqlChain

def Error.NotCancelled : Error → Prop
  | .cancelled _ => False
  | _ => True

namespace TraversalM

variable {σ ω α β : Type}

def exec (m : TraversalM σ ω α) (t : Traversal σ ω) : Except Error α × Traversal σ ω := m.run.run t

@[simp] theorem exec_pure (a : α) (t : Traversal σ ω) : exec (pure a) t = (.ok a, t) := rfl

@[simp] theorem exec_throw (e : Error) (t : Traversal σ ω) :
    exec (throw e : TraversalM σ ω α) t = (.error e, t) := rfl

@[simp] theorem exec_get (t : Traversal σ ω) : exec get t = (.ok t, t) := rfl

@[simp] theorem exec_set (s t : Traversal σ ω) : exec (set s) t = (.ok ⟨⟩, s) := rfl

@[simp] theorem exec_modify (f : Traversal σ ω → Traversal σ ω) (t : Traversal σ ω) :
    exec (modify f) t = (.ok ⟨⟩, f t) := rfl

theorem exec_bind (m : TraversalM σ ω α) (f : α → TraversalM σ ω β) (t : Traversal σ ω) :
    exec (m >>= f) t =
      match exec m t with
      | (.ok a, next) => exec (f a) next
      | (.error e, next) => (.error e, next) := by
  rcases h : exec m t with ⟨answer, next⟩
  have hm : m.run t = (answer, next) := h
  change StateT.run (m.run >>= ExceptT.bindCont f) t = _
  rw [StateT.run_bind]
  change (ExceptT.bindCont f (m.run t).1).run (m.run t).2 = _
  rw [hm]
  cases answer <;> rfl

theorem exec_bind_of_ok {m : TraversalM σ ω α} {t next : Traversal σ ω} {a : α}
    (h : exec m t = (.ok a, next)) (f : α → TraversalM σ ω β) :
    exec (m >>= f) t = exec (f a) next := by
  rw [exec_bind, h]

theorem exec_bind_of_error {m : TraversalM σ ω α} {t next : Traversal σ ω} {e : Error}
    (h : exec m t = (.error e, next)) (f : α → TraversalM σ ω β) :
    exec (m >>= f) t = (.error e, next) := by
  rw [exec_bind, h]

@[simp] theorem exec_enter (phase : Phase) (t : Traversal σ ω) :
    exec (enter phase) t = (.ok (), { t with phase }) := rfl

theorem exec_call (group : Group) (i : Nat) (c : Computation σ ω) (t : Traversal σ ω) :
    exec (call group i c) t =
      let reply := c.run group t.client
      let next := { t with client := reply.state, aborted := t.aborted || reply.abort }
      match reply.value with
      | .error reason => (.error (.computation (c.name.getD "") group.index reason), next)
      | .ok value => (.ok (), next.fill i group.index value) := by
  simp only [call, exec_bind, exec_get, exec_set]
  cases (c.run group t.client).value <;> simp

end TraversalM

namespace Computation

variable {σ ω : Type}

/-- The computation neither fails nor asks for the traversal to be cancelled. -/
structure IsSteady (c : Computation σ ω) : Prop where
  value : ∀ group s, ∃ v, (c.run group s).value = .ok v
  abort : ∀ group s, (c.run group s).abort = false

/-- The state of the client after calls that are made one after another, and what the calls
return. -/
def replay : List (Computation σ ω × Group) → σ → σ × List (Except String (GroupValue ω))
  | [], s => (s, [])
  | (c, group) :: rest, s =>
    let reply := c.run group s
    ((replay rest reply.state).1, reply.value :: (replay rest reply.state).2)

theorem replay_append (front back : List (Computation σ ω × Group)) (s : σ) :
    replay (front ++ back) s =
      ((replay back (replay front s).1).1, (replay front s).2 ++ (replay back (replay front s).1).2) := by
  induction front generalizing s with
  | nil => rfl
  | cons call front ih => simp [replay, ih]

/-- Every computation is called on a group before any of them is called on the next. -/
def calls (computations : List (Computation σ ω)) (groups : List Group) :
    List (Computation σ ω × Group) :=
  groups.flatMap fun group => computations.map (·, group)

end Computation

def Group.ofRuns (columns : List String) (runs : List Run) : List Group :=
  runs.mapIdx fun i run => { index := i, key := run.key, rows := { columns, rows := run.rows } }

theorem Group.ofRuns_concat (columns : List String) (runs : List Run) (run : Run) :
    ofRuns columns (runs ++ [run]) = ofRuns columns runs ++
      [{ index := runs.length, key := run.key, rows := { columns, rows := run.rows } }] := by
  simp [ofRuns, List.mapIdx_append]

/-! ## Slots -/

/-- The slots of `computations` computations for `groups` groups, given the values of the first of
these groups, one for each computation. -/
def slotsOf {ω : Type} (computations groups : Nat) (values : List (List (GroupValue ω))) :
    List (List (Option (GroupValue ω))) :=
  (List.range computations).map fun j =>
    (values.filterMap (·[j]?)).map some ++ List.replicate (groups - values.length) none

/-- Put values into the slots of neighbouring computations for one group. -/
def fillFrom {ω : Type} (group : Nat) (i : Nat) :
    List (GroupValue ω) → List (List (Option (GroupValue ω))) → List (List (Option (GroupValue ω)))
  | [], slots => slots
  | v :: vs, slots => fillFrom group (i + 1) vs (slots.modify i (·.set group (some v)))

theorem fillFrom_eq {ω : Type} (group : Nat) {values : List (GroupValue ω)}
    {front back : List (List (Option (GroupValue ω)))} (h : back.length = values.length) :
    fillFrom group front.length values (front ++ back) =
      front ++ List.zipWith (fun column v => column.set group (some v)) back values := by
  induction values generalizing front back with
  | nil => simp [fillFrom, List.eq_nil_of_length_eq_zero h]
  | cons v values ih =>
      cases back with
      | nil => simp at h
      | cons column back =>
          have hmodify : (front ++ column :: back).modify front.length (·.set group (some v)) =
              (front ++ [column.set group (some v)]) ++ back := by
            have htail := List.modifyTailIdx_add (List.modifyHead (·.set group (some v))) 0 front
              (column :: back)
            simpa [List.modify] using htail
          have hlength : front.length + 1 = (front ++ [column.set group (some v)]).length := by simp
          rw [fillFrom, hmodify, hlength, ih (by simpa using h)]
          simp

theorem length_filterMap_getElem? {α : Type} {values : List (List α)} {j m : Nat} (hj : j < m)
    (h : ∀ vs ∈ values, vs.length = m) : (values.filterMap (·[j]?)).length = values.length := by
  rw [List.filterMap_length_eq_length]
  intro vs hvs
  simp [h vs hvs, hj]

theorem set_filled {α : Type} (column : List α) (v : α) {free : Nat} (h : 0 < free) :
    (column.map some ++ List.replicate free none).set column.length (some v) =
      (column ++ [v]).map some ++ List.replicate (free - 1) none := by
  obtain ⟨free, rfl⟩ : ∃ k, free = k + 1 := ⟨free - 1, by omega⟩
  simp [List.replicate_succ]

theorem fillFrom_slotsOf {ω : Type} {m n : Nat} {values : List (List (GroupValue ω))}
    {vs : List (GroupValue ω)} (hn : values.length < n)
    (h : ∀ vs ∈ values, vs.length = m) (hvs : vs.length = m) :
    fillFrom values.length 0 vs (slotsOf m n values) = slotsOf m n (values ++ [vs]) := by
  have hfill : fillFrom values.length ([] : List (List (Option (GroupValue ω)))).length vs
      ([] ++ slotsOf m n values) = _ :=
    fillFrom_eq values.length (by simp [slotsOf, hvs])
  rw [List.nil_append, List.nil_append, List.length_nil] at hfill
  rw [hfill]
  apply List.ext_getElem
  · simp [slotsOf, hvs]
  · intro j hj hj'
    have hjm : j < m := by simpa [slotsOf] using hj'
    have hjv : j < vs.length := by omega
    have hfree : 0 < n - values.length := by omega
    have hset := set_filled (values.filterMap (·[j]?)) vs[j] hfree
    rw [length_filterMap_getElem? hjm h] at hset
    have hone : vs[j]? = some vs[j] := List.getElem?_eq_getElem hjv
    simpa [slotsOf, hone, Nat.sub_sub] using hset

theorem Output.filled_map_some {ω : Type} (expected : Nat) (values : List (GroupValue ω)) :
    filled expected (values.map some) = .ok values := by
  have hmap : (values.map some).mapM id = some values := by
    rw [List.mapM_map]
    have hpure : values.mapM (fun v => (pure (id v) : Option (GroupValue ω))) = _ :=
      List.mapM_pure
    simpa using hpure
  rw [filled, hmap]

/-- Slots without a gap are put together, a column for each named computation. -/
theorem Output.assemble_slotsOf {σ ω : Type} {computations : List (Computation σ ω)} {labels : RowSet}
    {values : List (List (GroupValue ω))} (hnamed : ∀ c ∈ computations, c.name.isSome)
    (hlength : values.length = labels.rows.length) :
    assemble labels (computations.map (·.name))
        (slotsOf computations.length labels.rows.length values) =
      .ok (.perGroup labels (computations.mapIdx fun j c =>
        (c.name.getD "", values.filterMap (·[j]?)))) := by
  have hfilled : (slotsOf computations.length labels.rows.length values).mapM
      (filled labels.rows.length) =
        .ok ((List.range computations.length).map fun j => values.filterMap (·[j]?)) := by
    have hcolumn : (filled labels.rows.length ∘ fun j : Nat => (values.filterMap (·[j]?)).map some ++
          List.replicate (labels.rows.length - values.length) none) =
        fun j : Nat => (pure (values.filterMap (·[j]?)) : Except Error (List (GroupValue ω))) := by
      funext j
      rw [Function.comp_apply, hlength, Nat.sub_self, List.replicate_zero, List.append_nil,
        filled_map_some]
      rfl
    rw [slotsOf, List.mapM_map, hcolumn]
    exact List.mapM_pure
  have hnames : computations.map (·.name) ≠ [none] := by
    intro hnone
    obtain ⟨c, hc, hname⟩ := List.map_eq_singleton_iff.1 hnone
    simpa [hname] using hnamed c (by simp [hc])
  have hzip : ((computations.map (·.name)).map (·.getD "")).zip
      ((List.range computations.length).map fun j => values.filterMap (·[j]?)) =
        computations.mapIdx fun j c => (c.name.getD "", values.filterMap (·[j]?)) := by
    apply List.ext_getElem <;> simp
  rw [assemble, hfilled, ← hzip]
  split
  · exact absurd ‹_› hnames
  · rfl

/-! ## One group -/

namespace TraversalM

variable {σ ω : Type}

theorem exec_callAll {computations : List (Computation σ ω)}
    (h : ∀ c ∈ computations, c.IsSteady) (group : Group) (i : Nat) (t : Traversal σ ω) :
    ∃ values : List (GroupValue ω), values.length = computations.length ∧
      (Computation.replay (computations.map (·, group)) t.client).2 = values.map .ok ∧
      exec (callAll group i computations) t = (.ok (), { t with
        client := (Computation.replay (computations.map (·, group)) t.client).1
        slots := fillFrom group.index i values t.slots }) := by
  induction computations generalizing i t with
  | nil => exact ⟨[], rfl, rfl, rfl⟩
  | cons c computations ih =>
      obtain ⟨v, hv⟩ := (h c (by simp)).value group t.client
      have habort := (h c (by simp)).abort group t.client
      have hcall : exec (call group i c) t = (.ok (), { t with
          client := (c.run group t.client).state
          slots := t.slots.modify i (·.set group.index (some v)) }) := by
        rw [exec_call]
        simp [hv, habort, Traversal.fill]
      obtain ⟨values, hlength, hreplay, hexec⟩ := ih
        (fun c hc => h c (List.mem_cons_of_mem _ hc)) (i + 1) { t with
          client := (c.run group t.client).state
          slots := t.slots.modify i (·.set group.index (some v)) }
      refine ⟨v :: values, by simp [hlength], ?_, ?_⟩
      · simp [Computation.replay, hv, hreplay]
      · rw [callAll, exec_bind_of_ok hcall, hexec]
        simp [Computation.replay, fillFrom]

theorem exec_dispatch_of_no_label {computations : List (Computation σ ω)} {run : Run}
    {t : Traversal σ ω} (habort : t.aborted = false)
    (h : ¬ ∃ label, t.labels.rows[t.next]? = some label ∧ GroupKey.equal label run.key = true) :
    ∃ e, e.NotCancelled ∧ exec (dispatch computations run) t = (.error e, t) := by
  cases hlabel : t.labels.rows[t.next]? with
  | none =>
      refine ⟨.groupCountMismatch t.labels.rows.length (t.next + 1), trivial, ?_⟩
      simp [dispatch, exec_bind, habort, hlabel]
  | some label =>
      have hk : GroupKey.equal label run.key = false := by
        by_contra hk
        exact h ⟨label, hlabel, by simpa using hk⟩
      refine ⟨.orderingViolation run.key, trivial, ?_⟩
      simp [dispatch, exec_bind, habort, hlabel, hk]

/-- A run that is the next label is given to the computations. -/
theorem exec_dispatch_labelled (computations : List (Computation σ ω)) (run : Run)
    {t : Traversal σ ω} {label : Row} {group : Group} (habort : t.aborted = false)
    (hlabel : t.labels.rows[t.next]? = some label) (hk : GroupKey.equal label run.key = true)
    (hgroup : group =
      { index := t.next, key := run.key, rows := { columns := t.columns, rows := run.rows } }) :
    exec (dispatch computations run) t = exec (do
      callAll group 0 computations
      modify fun t =>
        { t with next := t.next + 1, stats := { t.stats with groups := t.stats.groups + 1 } }) t := by
  subst hgroup
  simp [dispatch, exec_bind, habort, hlabel, hk]

theorem exec_dispatch_of_label {computations : List (Computation σ ω)} {run : Run}
    {t : Traversal σ ω} {label : Row} (hsteady : ∀ c ∈ computations, c.IsSteady)
    (habort : t.aborted = false) (hlabel : t.labels.rows[t.next]? = some label)
    (hk : GroupKey.equal label run.key = true) :
    ∃ values : List (GroupValue ω), values.length = computations.length ∧
      let group : Group :=
        { index := t.next, key := run.key, rows := { columns := t.columns, rows := run.rows } }
      let made := Computation.replay (computations.map (·, group)) t.client
      made.2 = values.map .ok ∧
      exec (dispatch computations run) t = (.ok (), { t with
        client := made.1
        slots := fillFrom t.next 0 values t.slots
        next := t.next + 1
        stats := { t.stats with groups := t.stats.groups + 1 } }) := by
  obtain ⟨values, hlength, hreplay, hexec⟩ := exec_callAll hsteady
    { index := t.next, key := run.key, rows := { columns := t.columns, rows := run.rows } } 0 t
  refine ⟨values, hlength, hreplay, ?_⟩
  rw [exec_dispatch_labelled computations run habort hlabel hk rfl, exec_bind_of_ok hexec]
  rfl

end TraversalM

end SqlChain
