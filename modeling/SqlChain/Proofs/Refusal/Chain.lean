import SqlChain.Proofs.Chain.Statement
import SqlChain.Proofs.Refusal.Reentry

/-!
# Missing columns

A statement is refused for a missing column exactly where a chain refers to a name that is no column
of what came before, and the first such reference is the one that is reported
(`unknownColumn_render`). Predicates and assignments of one operation see what those before them
leave.
-/

namespace SqlChain

variable {c : Compiler} {source : Source} {s : State} {q : Query}

/-! ## References -/

namespace Op

/-- The names that an operation refers to, in the order in which they are looked up. -/
def references : Op → List String
  | .select idents => idents.map (·.name)
  | .rename pairs => pairs.map Prod.fst
  | .filter predicates => predicates.flatMap Expr.columns
  | .mutate assignments => assignments.flatMap (·.2.columns)
  | .summarise assignments => assignments.flatMap (·.2.columns)
  | .arrange keys => keys.flatMap Expr.columns
  | .groupBy keys _ => keys
  | .ungroup => []

/-- The first name that an operation refers to and that is none of the columns. -/
def missing? (op : Op) (columns : List String) : Option String :=
  op.references.find? fun name => !columns.contains name

/-- The first grouping column that is assigned, up to an assignment that refers to no column. -/
def assignedGroup? (columns groups : List String) : List (String × Expr) → Option String
  | [] => none
  | (name, e) :: rest =>
    if !e.columns.all columns.contains then none
    else if groups.contains name then some name
    else assignedGroup? columns groups rest

/-- The grouping column that a summary assigns before it refers to a name that is no column. -/
def assignsGroup? (op : Op) (columns groups : List String) : Option String :=
  match op with
  | .summarise assignments => assignedGroup? columns groups assignments
  | _ => none

/-- The operation as a chain in which every predicate and every assignment is an operation. -/
def parts : Op → List Op
  | .filter predicates => predicates.map fun e => .filter [e]
  | .mutate assignments => assignments.map fun a => .mutate [a]
  | op => [op]

theorem missing?_eq_none_iff {op : Op} {columns : List String} :
    op.missing? columns = none ↔ ∀ n ∈ op.references, n ∈ columns := by
  simp [missing?]

end Op

/-! ## Checks -/

theorem checkNames_of_find? {names : List String} {name : String}
    (h : names.find? (fun n => !s.columns.contains n) = some name) :
    s.checkNames names = .error (.unknownColumn name s.columns) := by
  rw [State.checkNames, h]

theorem checkNames_append (s : State) (names rest : List String) :
    s.checkNames (names ++ rest) = s.checkNames names >>= fun _ => s.checkNames rest := by
  cases hfirst : names.find? fun n => !s.columns.contains n with
  | none =>
      rw [State.checkNames, State.checkNames, State.checkNames, List.find?_append, hfirst]
      rfl
  | some name =>
      rw [State.checkNames, State.checkNames, List.find?_append, hfirst]
      rfl

/-- Looking up the names of several keys is looking up all of them. -/
theorem forM_checkReferences (s : State) (keys : List Expr) :
    keys.forM s.checkReferences = s.checkNames (keys.flatMap Expr.columns) := by
  induction keys with
  | nil => rfl
  | cons key rest ih =>
      rw [List.flatMap_cons, checkNames_append, ← ih]
      rfl

/-- A summary is refused for the first of its assignments that has something wrong with it. -/
theorem checkAssignments_eq (s : State) (assignments : List (String × Expr)) :
    Compiler.checkAssignments s assignments =
      match Op.assignedGroup? s.columns s.groups assignments with
      | some group => .error (.invalidArgument "summarise" (.assignsGroup group))
      | none => s.checkNames (assignments.flatMap (·.2.columns)) := by
  induction assignments with
  | nil => rfl
  | cons a rest ih =>
      obtain ⟨name, e⟩ := a
      rw [Compiler.checkAssignments, State.checkReferences, List.flatMap_cons, checkNames_append,
        ih, Op.assignedGroup?]
      cases hfirst : e.columns.find? fun n => !s.columns.contains n with
      | some missing =>
          have hunknown : e.columns.all s.columns.contains = false := by
            rw [List.all_eq_false]
            exact ⟨missing, List.mem_of_find?_eq_some hfirst, by simpa using List.find?_some hfirst⟩
          rw [checkNames_of_find? hfirst, hunknown]
          rfl
      | none =>
          have hknown : ∀ n ∈ e.columns, n ∈ s.columns := by simpa using hfirst
          have hall : e.columns.all s.columns.contains = true := by simpa using hknown
          rw [State.checkNames_of_mem hknown, hall, Bool.not_true, if_neg Bool.false_ne_true]
          by_cases hgroup : s.groups.contains name = true
          · rw [if_pos hgroup, if_pos hgroup]
            rfl
          · rw [if_neg hgroup, if_neg hgroup]
            rfl

/-! ## Steps -/

/-- An operation is refused for the first of its references to no column, but for a summary that is
refused before it comes to that. -/
theorem run_step_of_missing? {op whole : Op} (hop : op ∈ whole.parts) {name : String}
    (hmissing : op.missing? s.columns = some name) (p : Progress) :
    (c.step s op).run p = .error (match op.assignsGroup? s.columns s.groups with
      | some group => .invalidArgument "summarise" (.assignsGroup group)
      | none => .unknownColumn name s.columns) := by
  rw [Op.missing?] at hmissing
  cases whole with
  | select idents =>
      cases List.mem_singleton.1 hop
      rw [Op.references] at hmissing
      rw [Compiler.step, State.select, checkNames_of_find? hmissing]
      rfl
  | rename pairs =>
      cases List.mem_singleton.1 hop
      rw [Op.references] at hmissing
      rw [Compiler.step, Compiler.rename, checkNames_of_find? hmissing]
      rfl
  | filter predicates =>
      obtain ⟨e, _, rfl⟩ := List.mem_map.1 hop
      rw [Op.references, List.flatMap_singleton] at hmissing
      rw [Compiler.step, List.foldlM_cons, Compiler.filter, State.checkReferences,
        checkNames_of_find? hmissing]
      rfl
  | mutate assignments =>
      obtain ⟨⟨target, e⟩, _, rfl⟩ := List.mem_map.1 hop
      rw [Op.references, List.flatMap_singleton] at hmissing
      rw [Compiler.step, List.foldlM_cons]
      dsimp only
      rw [Compiler.mutate, State.checkReferences, checkNames_of_find? hmissing]
      rfl
  | summarise assignments =>
      cases List.mem_singleton.1 hop
      rw [Op.references] at hmissing
      rw [Compiler.step, Compiler.summarise, checkAssignments_eq, Op.assignsGroup?,
        checkNames_of_find? hmissing]
      cases Op.assignedGroup? s.columns s.groups assignments <;> rfl
  | arrange keys =>
      cases List.mem_singleton.1 hop
      rw [Op.references] at hmissing
      rw [Compiler.step, Compiler.arrange, forM_checkReferences, checkNames_of_find? hmissing]
      rfl
  | groupBy keys add =>
      cases List.mem_singleton.1 hop
      rw [Op.references] at hmissing
      rw [Compiler.step, Compiler.groupBy, checkNames_of_find? hmissing]
      rfl
  | ungroup =>
      cases List.mem_singleton.1 hop
      cases hmissing

/-- An operation that refers to columns only is not refused for a missing one. -/
theorem fails_step_of_known (hc : c.LooksAtAll) (hs : Reached c source s) {op whole : Op}
    (hop : op ∈ whole.parts) (hknown : ∀ n ∈ op.references, n ∈ s.columns) :
    (c.step s op).Fails Error.NamesKnown := by
  cases whole with
  | select idents =>
      cases List.mem_singleton.1 hop
      exact BuildM.fails_select (failsWith_checkNames hknown)
  | rename pairs =>
      cases List.mem_singleton.1 hop
      refine (BuildM.Fails.lift (failsWith_checkNames hknown)).bind fun _ => ?_
      dsimp only
      split
      · exact .throw rfl
      · refine BuildM.fails_select (failsWith_checkNames ?_)
        rw [Compiler.renamedIdents, List.map_map]
        exact List.forall_mem_map.2 fun n hn => hn
  | filter predicates =>
      obtain ⟨e, _, rfl⟩ := List.mem_map.1 hop
      rw [Op.references, List.flatMap_singleton] at hknown
      exact (BuildM.fails_filter hc hs hknown).bind fun _ => .pure _
  | mutate assignments =>
      obtain ⟨⟨target, e⟩, _, rfl⟩ := List.mem_map.1 hop
      rw [Op.references, List.flatMap_singleton] at hknown
      exact (BuildM.fails_mutate hc hs target hknown).bind fun _ => .pure _
  | summarise assignments =>
      cases List.mem_singleton.1 hop
      refine BuildM.fails_summarise hc.failsOnly (fun _ => rfl) s fun a ha => ?_
      exact failsWith_checkNames fun n hn => hknown n (List.mem_flatMap.2 ⟨a, ha, hn⟩)
  | arrange keys =>
      cases List.mem_singleton.1 hop
      refine BuildM.Fails.lift ?_
      rw [Compiler.arrange, forM_checkReferences]
      exact (failsWith_checkNames hknown).bind fun _ => .ok _
  | groupBy keys add =>
      cases List.mem_singleton.1 hop
      exact BuildM.Fails.lift ((failsWith_checkNames hknown).bind fun _ => .ok _)
  | ungroup =>
      cases List.mem_singleton.1 hop
      exact .pure _

/-! ## Chains -/

/-- A fold fails in one of its steps. -/
theorem BuildM.exists_failing_step {α β : Type} {f : β → α → BuildM β} {as : List α} {b : β}
    {p : Progress} {e : Error} (h : (as.foldlM f b).run p = .error e) :
    ∃ n a, as[n]? = some a ∧ ∃ b' p', ((as.take n).foldlM f b).run p = .ok (b', p') ∧
      (f b' a).run p' = .error e := by
  induction as generalizing b p with
  | nil => cases h
  | cons a as ih =>
      rw [List.foldlM_cons, StateT.run_bind] at h
      cases hfirst : (f b a).run p with
      | error e' =>
          rw [hfirst] at h
          cases h
          exact ⟨0, a, rfl, b, p, rfl, hfirst⟩
      | ok answer =>
          rw [hfirst] at h
          obtain ⟨n, x, hx, b', p', hrun, hfail⟩ := ih h
          refine ⟨n + 1, x, hx, b', p', ?_, hfail⟩
          rw [List.take_succ_cons, List.foldlM_cons, StateT.run_bind, hfirst]
          exact hrun

namespace Query

/-- The chain with every predicate and every assignment as an operation of its own. -/
def inParts (q : Query) : Query := { q with ops := q.ops.flatMap Op.parts }

theorem exists_of_mem_inParts {op : Op} (h : op ∈ q.inParts.ops) :
    ∃ whole : Op, op ∈ whole.parts := by
  obtain ⟨whole, _, hop⟩ := List.mem_flatMap.1 h
  exact ⟨whole, hop⟩

theorem foldlM_parts (c : Compiler) (s : State) (op : Op) :
    op.parts.foldlM c.step s = c.step s op := by
  have hsingle : ∀ op : Op, [op].foldlM c.step s = c.step s op := by
    intro op
    rw [List.foldlM_cons]
    exact bind_pure _
  cases op with
  | filter predicates =>
      rw [Op.parts, List.foldlM_map, Compiler.step]
      congr 1
      funext s e
      rw [Compiler.step, List.foldlM_cons]
      exact bind_pure _
  | mutate assignments =>
      rw [Op.parts, List.foldlM_map, Compiler.step]
      congr 1
      funext s a
      rw [Compiler.step, List.foldlM_cons]
      exact bind_pure _
  | _ => exact hsingle _

theorem build_inParts (c : Compiler) (q : Query) : c.build q.inParts = c.build q := by
  have hfold : ∀ ops : List Op, ∀ s : State,
      (ops.flatMap Op.parts).foldlM c.step s = ops.foldlM c.step s := by
    intro ops
    induction ops with
    | nil => exact fun _ => rfl
    | cons op ops ih =>
        intro s
        rw [List.flatMap_cons, List.foldlM_append, foldlM_parts, List.foldlM_cons]
        exact congrArg (c.step s op >>= ·) (funext ih)
  exact hfold q.ops _

/-- The first reference of a chain to a name that is no column of what came before. -/
structure Misses (q : Query) (n : Nat) (op : Op) (name : String) : Prop where
  here : q.ops[n]? = some op
  known : ∀ m < n, ∀ earlier ∈ q.ops[m]?, ∀ x ∈ earlier.references,
    x ∈ (q.upTo m).heading.columns
  missing : op.missing? (q.upTo n).heading.columns = some name

theorem build_upTo_succ (c : Compiler) {n : Nat} {op : Op} (hop : q.ops[n]? = some op) :
    c.build (q.upTo (n + 1)) = c.build (q.upTo n) >>= fun s => c.step s op := by
  have htake : q.ops.take (n + 1) = q.ops.take n ++ [op] := by
    rw [List.take_add_one, hop]
    rfl
  rw [Compiler.build, Compiler.build, upTo, upTo, htake, List.foldlM_append]
  refine congrArg (_ >>= ·) (funext fun s => ?_)
  rw [List.foldlM_cons]
  exact bind_pure _

/-- A chain fails with what its first operations fail with. -/
theorem run_build_of_upTo {n : Nat} {e : Error} (h : (c.build (q.upTo n)).run .start = .error e) :
    (c.build q).run .start = .error e := by
  have hwhole : c.build q = c.build (q.upTo n) >>= fun s => (q.ops.drop n).foldlM c.step s := by
    rw [Compiler.build, Compiler.build, upTo, ← List.foldlM_append, List.take_append_drop]
  rw [hwhole, StateT.run_bind, h]
  rfl

section

variable (hparts : ∀ op ∈ q.ops, ∃ whole : Op, op ∈ whole.parts)

include hparts

/-- Operations that were carried out refer to columns only. -/
theorem known_of_run {n : Nat} {later : Progress}
    (hrun : (c.build (q.upTo n)).run .start = .ok (s, later)) :
    ∀ m < n, ∀ op ∈ q.ops[m]?, ∀ x ∈ op.references, x ∈ (q.upTo m).heading.columns := by
  intro m hm op hop
  obtain ⟨whole, hwhole⟩ := hparts op (List.mem_of_getElem? hop)
  obtain ⟨t, between, hsucc⟩ := exists_run_upTo hrun (m + 1)
  have htwice : (q.upTo n).upTo (m + 1) = q.upTo (m + 1) := by
    rw [upTo, upTo, upTo, List.take_take, Nat.min_eq_left hm]
  rw [htwice, build_upTo_succ c hop, StateT.run_bind] at hsucc
  obtain ⟨⟨s₁, p⟩, hfirst, hstep⟩ := exists_of_bind_eq_ok hsucc
  obtain ⟨_, hfollows⟩ := BuildM.ensuresAfter_build c (q.upTo m) .start s₁ p rfl hfirst
  rw [← hfollows.columns]
  refine Op.missing?_eq_none_iff.1 (Option.eq_none_iff_forall_ne_some.2 fun name hmissing => ?_)
  have hrefused := run_step_of_missing? (c := c) hwhole hmissing p
  rw [hrefused] at hstep
  cases hstep

/-- A chain that comes to a reference to no column is refused there. -/
theorem run_build_of_misses {n : Nat} {op : Op} {name : String} (h : q.Misses n op name)
    {later : Progress} (hrun : (c.build (q.upTo n)).run .start = .ok (s, later)) :
    (c.build q).run .start = .error
      (match op.assignsGroup? (q.upTo n).heading.columns (q.upTo n).heading.groups with
      | some group => .invalidArgument "summarise" (.assignsGroup group)
      | none => .unknownColumn name (q.upTo n).heading.columns) := by
  obtain ⟨whole, hwhole⟩ := hparts op (List.mem_of_getElem? h.here)
  obtain ⟨_, hfollows⟩ := BuildM.ensuresAfter_build c (q.upTo n) .start s later rfl hrun
  refine run_build_of_upTo (n := n + 1) ?_
  rw [build_upTo_succ c h.here, StateT.run_bind, hrun]
  have hmissing := h.missing
  rw [← hfollows.columns] at hmissing
  rw [← hfollows.columns, ← hfollows.groups]
  exact run_step_of_missing? hwhole hmissing later

/-- A chain is refused for a missing column where it comes to the first reference to one. -/
theorem misses_of_run_build (hc : c.LooksAtAll) {name : String} {available : List String}
    (h : (c.build q).run .start = .error (.unknownColumn name available)) :
    ∃ n op, q.Misses n op name ∧ (q.upTo n).heading.columns = available ∧
      op.assignsGroup? available (q.upTo n).heading.groups = none ∧
      ∃ s later, (c.build (q.upTo n)).run .start = .ok (s, later) ∧ s.columns = available := by
  obtain ⟨n, op, hop, s, later, hrun, hfail⟩ := BuildM.exists_failing_step h
  obtain ⟨whole, hwhole⟩ := hparts op (List.mem_of_getElem? hop)
  obtain ⟨hs, hfollows⟩ := BuildM.ensuresAfter_build c (q.upTo n) .start s later rfl hrun
  have hknown := known_of_run hparts hrun
  cases hmissing : op.missing? s.columns with
  | none =>
      have hnames := fails_step_of_known hc hs hwhole (Op.missing?_eq_none_iff.1 hmissing)
      cases hnames later _ hfail
  | some first =>
      rw [run_step_of_missing? hwhole hmissing] at hfail
      split at hfail
      · cases hfail
      · next hgroup =>
          cases hfail
          refine ⟨n, op, ⟨hop, hknown, hfollows.columns ▸ hmissing⟩, hfollows.columns.symm, ?_,
            s, later, hrun, rfl⟩
          rw [← hfollows.groups]
          exact hgroup

end

/-! ## Statements -/

variable {mode : Mode} {dialect : Dialect} {config : Config}

theorem render_of_build_error {e : Error}
    (h : (Compiler.build (.builtin dialect config) q).run .start = .error e) :
    q.render mode dialect config = .error e := by
  rw [render_eq_error_iff, rendering, StateT.run_bind, h]
  rfl

/-- Once a chain is built, no column is missing any more. -/
theorem build_of_render_unknownColumn {name : String} {available : List String}
    (h : q.render mode dialect config = .error (.unknownColumn name available)) :
    (Compiler.build (.builtin dialect config) q).run .start =
      .error (.unknownColumn name available) := by
  have hc := Compiler.looksAtAll_builtin dialect config
  rw [render_eq_error_iff, rendering, StateT.run_bind] at h
  cases hbuild : (Compiler.build (.builtin dialect config) q).run .start with
  | error e =>
      rw [hbuild] at h
      cases h
      rfl
  | ok answer =>
      obtain ⟨s, built⟩ := answer
      rw [hbuild] at h
      have hnames := (BuildM.fails_arranged hc (build_follows hbuild).1 mode).bind
        fun s' => BuildM.fails_finish hc.failsOnly s'
      cases hnames built _ h

/-- A statement is refused for a missing column if and only if a chain comes to its first reference
to a name that is no column at that point, and then with this name and these columns. A summary that
assigns a grouping column before is refused for that. Wherever there is such a reference, there is
no statement. Columns for window calls are there whenever their names are looked up. -/
theorem unknownColumn_render (q : Query) (mode : Mode) (dialect : Dialect) (config : Config) :
    (∀ name available, q.render mode dialect config = .error (.unknownColumn name available) ↔
      ∃ n op, q.inParts.Misses n op name ∧ (q.inParts.upTo n).heading.columns = available ∧
        op.assignsGroup? available (q.inParts.upTo n).heading.groups = none ∧
        ∃ s later, (Compiler.build (.builtin dialect config) (q.inParts.upTo n)).run .start =
          .ok (s, later) ∧ s.columns = available) ∧
    (∀ n op name, q.inParts.Misses n op name → ∃ e, q.render mode dialect config = .error e) ∧
    ∀ n s later, (Compiler.build (.builtin dialect config) (q.inParts.upTo n)).run .start =
        .ok (s, later) →
      (∀ e, Compiler.filter (.builtin dialect config) s e =
        Compiler.filterAgain (.builtin dialect config) s e) ∧
      ∀ name e, Compiler.mutate (.builtin dialect config) s name e =
        Compiler.mutateAgain (.builtin dialect config) s name e := by
  have hparts : ∀ op ∈ q.inParts.ops, ∃ whole : Op, op ∈ whole.parts :=
    fun op hop => exists_of_mem_inParts hop
  have hbuild := build_inParts (.builtin dialect config) q
  refine ⟨fun name available => ⟨fun h => ?_, ?_⟩, ?_, ?_⟩
  · have herror := build_of_render_unknownColumn h
    rw [← hbuild] at herror
    exact misses_of_run_build hparts (Compiler.looksAtAll_builtin dialect config) herror
  · rintro ⟨n, op, hmisses, rfl, hgroup, s, later, hrun, _⟩
    have herror := run_build_of_misses hparts hmisses hrun
    rw [hgroup, hbuild] at herror
    exact render_of_build_error herror
  · intro n op name hmisses
    cases hrun : (Compiler.build (.builtin dialect config) (q.inParts.upTo n)).run .start with
    | error e =>
        have herror := run_build_of_upTo hrun
        rw [hbuild] at herror
        exact ⟨e, render_of_build_error herror⟩
    | ok answer =>
        have herror := run_build_of_misses hparts hmisses hrun
        rw [hbuild] at herror
        exact ⟨_, render_of_build_error herror⟩
  · intro n s later hrun
    have hs := (build_follows hrun).1
    exact ⟨BuildM.filter_eq_filterAgain hs, BuildM.mutate_eq_mutateAgain hs⟩

/-- A column of a table without windows is compared with its mean, and then a column for the mean is
asked for, which is not there any more. -/
def temporaryAsked : Query where
  source := { schema := none, name := "t", columns := ["g", "x"] }
  ops := [
    .groupBy ["g"] false,
    .filter [
      .binary .gt (.column "x") (.literal (.int64 0)),
      .binary .gt (.column "x") (.plainCall "mean" [.column "x"])],
    .mutate [
      ("y", .column "x"),
      ("z", .binary .add (.column "y") (.column (temporaryName 1)))]]

theorem unknownColumn_render_temporaryAsked :
    temporaryAsked.inParts.Misses 4
      (.mutate [("z", .binary .add (.column "y") (.column "win01"))]) "win01" ∧
    temporaryAsked.render .plain .mysql57 .default =
      .error (.unknownColumn "win01" ["g", "x", "y"]) ∧
    ∃ s later, (Compiler.build (.builtin .mysql57 .default) (temporaryAsked.inParts.upTo 1)).run
        .start = .ok (s, later) ∧
      ∀ e, Compiler.filter (.builtin .mysql57 .default) s e =
        Compiler.filterAgain (.builtin .mysql57 .default) s e := by
  obtain ⟨hiff, _, hagain⟩ := unknownColumn_render temporaryAsked .plain .mysql57 .default
  have hmisses : temporaryAsked.inParts.Misses 4
      (.mutate [("z", .binary .add (.column "y") (.column "win01"))]) "win01" :=
    ⟨by rfl, by decide +kernel, by decide +kernel⟩
  obtain ⟨⟨s, later⟩, hrun⟩ := exists_of_isOk
    (r := (Compiler.build (.builtin .mysql57 .default) (temporaryAsked.inParts.upTo 4)).run .start)
    (by decide +kernel)
  obtain ⟨⟨t, between⟩, hfirst⟩ := exists_of_isOk
    (r := (Compiler.build (.builtin .mysql57 .default) (temporaryAsked.inParts.upTo 1)).run .start)
    (by decide +kernel)
  have hcolumns : (temporaryAsked.inParts.upTo 4).heading.columns = ["g", "x", "y"] := by
    decide +kernel
  have hfollows := (build_follows hrun).2
  refine ⟨hmisses, (hiff "win01" ["g", "x", "y"]).2 ?_, t, between, hfirst,
    (hagain 1 t between hfirst).1⟩
  exact ⟨4, _, hmisses, hcolumns, rfl, s, later, hrun, hfollows.columns.trans hcolumns⟩

end Query

end SqlChain
