import SqlChain.Proofs.Meaning.Merged
import SqlChain.Proofs.Steady

/-!
# Summaries as they are written

A level says of itself whether its rows are groups, but it is not written down. The rows of a
`SELECT` collapse if it has a `GROUP BY` or if something that it selects calls an aggregate. A
summary of groups has one row for every key that way, and one without groups has a single row if an
aggregate is called in it, and otherwise all the rows that there were (`summarise_written`).
-/

namespace SqlChain

/-! ## Calls of aggregates -/

namespace Term

variable (aggregates : String → Nat → Bool)

mutual

/-- Whether an aggregate is called outside of all windows. Which functions of how many arguments are
aggregates is up to the database. -/
def hasAggregate : Term → Bool
  | .column _ | .literal _ => false
  | .apply function args => aggregates function args.length || anyAggregate args
  | .countStar | .countDistinct _ => true
  | .substringFor operand _ _ | .cast operand _ | .negate operand | .not operand | .isNull operand
  | .descending operand => operand.hasAggregate
  | .conditional condition value none => condition.hasAggregate || value.hasAggregate
  | .conditional condition value (some otherwise) =>
    condition.hasAggregate || value.hasAggregate || otherwise.hasAggregate
  | .binary _ left right | .inTerm left right => left.hasAggregate || right.hasAggregate
  | .between operand low high => operand.hasAggregate || low.hasAggregate || high.hasAggregate
  | .inList operand items => operand.hasAggregate || anyAggregate items
  | .concat parts => anyAggregate parts
  -- the call itself is evaluated over the window, its arguments are not
  | .windowed (.apply _ args) _ order _ | .windowed (.countDistinct args) _ order _ =>
    anyAggregate args || anyAggregate order
  | .windowed _ _ order _ => anyAggregate order

def anyAggregate : List Term → Bool
  | [] => false
  | t :: rest => t.hasAggregate || anyAggregate rest

end

end Term

namespace Compiler

/-- The term that an expression is written from. -/
def term? (c : Compiler) (context : Context) (e : Expr) : Option Term :=
  ((c.term context.qualifier e (c.frame context)).run.run []).1.toOption

/-- A text is that of the term, whatever had been warned of when it was compiled. -/
theorem exists_term_of_compile {c : Compiler} {context : Context} {e : Expr} {sql : String}
    {warnings later : List Warning}
    (h : (c.compile context e).run.run warnings = (.ok sql, later)) :
    ∃ t, c.term? context e = some t ∧ sql = t.text false := by
  rw [compile, CompileM.run_bind, c.steady_term_frame context e warnings] at h
  rw [term?]
  cases hterm : ((c.term context.qualifier e (c.frame context)).run.run []).1 with
  | error e =>
      rw [hterm] at h
      cases h
  | ok t =>
      rw [hterm] at h
      cases h
      exact ⟨t, rfl, rfl⟩

end Compiler

/-! ## Levels as they are written -/

section

variable (c : Compiler) (aggregates : String → Nat → Bool)

def Item.hasAggregate (item : Item) : Bool :=
  match item.value with
  | .computed f =>
    (c.term? { window := f.window, qualifier := none } f.expr).any (Term.hasAggregate aggregates)
  | _ => false

/-- Whether the clauses make groups of rows. -/
def Body.collapses (b : Body) : Bool :=
  !b.groupBy.isEmpty || b.items.any (Item.hasAggregate c aggregates)

def Body.asWritten (b : Body) : Body := { b with aggregated := b.collapses c aggregates }

/-- The level as its clauses have it. -/
def Level.asWritten : Level → Level
  | .table schema name body => .table schema name (body.asWritten c aggregates)
  | .subquery inner name body => .subquery inner.asWritten name (body.asWritten c aggregates)
  | .join left right on body => .join left.asWritten right.asWritten on (body.asWritten c aggregates)

end

variable {c : Compiler} {aggregates : String → Nat → Bool}

namespace Level

/-- What a level says of itself beyond its clauses is not written down. -/
theorem render_asWritten (d : Dialect) (level : Level) :
    (level.asWritten c aggregates).render d = level.render d := by
  have hitems : ∀ b : Body, (b.asWritten c aggregates).renderItems d = b.renderItems d :=
    fun _ => rfl
  have hgroups : ∀ b : Body, (b.asWritten c aggregates).renderGroupBy d = b.renderGroupBy d :=
    fun _ => rfl
  induction level with
  | table schema name body => rw [asWritten, render, render, hitems, hgroups]; rfl
  | subquery inner name body ih => rw [asWritten, render, render, hitems, hgroups, ih]; rfl
  | join left right on body ihleft ihright =>
      rw [asWritten, render, render, hitems, hgroups, ihleft, ihright]
      rfl

theorem body_asWritten (level : Level) :
    (level.asWritten c aggregates).body = level.body.asWritten c aggregates := by
  cases level <;> rfl

theorem outputs_asWritten (level : Level) :
    (level.asWritten c aggregates).outputs = level.outputs := by
  rw [outputs, body_asWritten]
  rfl

theorem asWritten_withBody (level : Level) (b : Body) :
    (level.withBody b).asWritten c aggregates =
      (level.asWritten c aggregates).withBody (b.asWritten c aggregates) := by
  cases level <;> rfl

theorem isJoin_asWritten (level : Level) :
    (level.asWritten c aggregates).isJoin = level.isJoin := by
  cases level <;> rfl

end Level

/-- Clauses that only pass columns on and do not group are as they are written. -/
theorem Body.asWritten_eq_self {b : Body} (haggregated : b.aggregated = false)
    (hgroupBy : b.groupBy = []) (hidentity : b.items.all Item.isIdentity = true) :
    b.asWritten c aggregates = b := by
  have hnone : ∀ item ∈ b.items, item.hasAggregate c aggregates = false := by
    intro item hitem
    rw [Item.eq_column_of_isIdentity (List.all_eq_true.1 hidentity item hitem)]
    rfl
  have hcollapses : b.collapses c aggregates = false := by
    rw [Body.collapses, hgroupBy, List.any_eq_false.2 fun item hitem => by simp [hnone item hitem]]
    rfl
  rw [asWritten, hcollapses, ← haggregated]

theorem Level.asWritten_wrap (level : Level) (name : String) :
    (level.wrap name).asWritten c aggregates = (level.asWritten c aggregates).wrap name := by
  have hidentity : (Body.identity level.outputs).asWritten c aggregates =
      Body.identity level.outputs := by
    refine Body.asWritten_eq_self rfl rfl (List.all_eq_true.2 fun item hitem => ?_)
    obtain ⟨n, _, rfl⟩ := List.mem_map.1 hitem
    exact Item.isIdentity_column n
  rw [wrap, wrap, asWritten, hidentity, outputs_asWritten]

/-- A level whose rows are no groups has no `GROUP BY`. -/
theorem Move.groupBy_eq_nil {s s' : State} (hmove : Move c s s')
    (h : s.level.body.aggregated = false → s.level.body.groupBy = [])
    (hafter : s'.level.body.aggregated = false) : s'.level.body.groupBy = [] := by
  cases hmove with
  | wrap name => rfl
  | restrict | compute =>
      rw [Level.body_withBody] at hafter ⊢
      exact h hafter
  | project =>
      rw [State.project, Level.body_withBody] at hafter ⊢
      exact h hafter
  | summarise =>
      rw [Level.body_withBody] at hafter
      cases hafter
  | emulate _ hemulation => cases hemulation <;> rfl
  | arrange | regroup => exact h hafter

theorem Reached.groupBy_eq_nil {source : Source} {s : State} (h : Reached c source s) :
    s.level.body.aggregated = false → s.level.body.groupBy = [] := by
  induction h with
  | start => exact fun _ => rfl
  | move _ hmove ih => exact hmove.groupBy_eq_nil ih

/-! ## One row for every key -/

/-- The cells of every row in these columns. -/
def RowSet.keys (t : RowSet) (groups : List String) : List GroupKey :=
  t.envs.map fun row => groups.map row

theorem RowSet.keys_eq (t : RowSet) (groups : List String) :
    t.keys groups = t.rows.map fun row => groups.map (cell t.columns row) :=
  List.map_map

/-- The rows have the keys of the rows of `t`, each of them once. -/
structure RowSet.HasRowPerKey (t' t : RowSet) (groups : List String) : Prop where
  distinct : (t'.keys groups).Pairwise fun k k' => GroupKey.equal k k' = false
  subset : t'.keys groups ⊆ t.keys groups
  covers : ∀ k ∈ t.keys groups, ∃ k' ∈ t'.keys groups, GroupKey.equal k' k = true

theorem RowSet.HasRowPerKey.of_envs {t' t₁ t₂ : RowSet} {groups : List String}
    (h : t'.HasRowPerKey t₁ groups) (henvs : t₁.envs = t₂.envs) : t'.HasRowPerKey t₂ groups := by
  have hkeys : t₁.keys groups = t₂.keys groups := congrArg (List.map _) henvs
  exact ⟨h.distinct, hkeys ▸ h.subset, hkeys ▸ h.covers⟩

section

variable {α : Type} {key : α → GroupKey} {xs : List α}

theorem pairwise_representatives (key : α → GroupKey) (xs : List α) :
    (representatives key xs).Pairwise fun x y => GroupKey.equal (key x) (key y) = false := by
  induction xs with
  | nil => exact .nil
  | cons x xs ih =>
      refine List.pairwise_cons.2 ⟨fun y hy => ?_, ih.filter _⟩
      simpa using (List.mem_filter.1 hy).2

/-- A group begins with the element that stands for it. -/
theorem head?_filter_of_mem_representatives {x : α} (h : x ∈ representatives key xs) :
    (xs.filter fun y => GroupKey.equal (key x) (key y)).head? = some x := by
  induction xs with
  | nil => cases h
  | cons z zs ih =>
      rw [List.filter_cons]
      rcases List.mem_cons.1 h with rfl | h
      · rw [GroupKey.equal_refl, if_pos rfl, List.head?_cons]
      · obtain ⟨hx, hne⟩ := List.mem_filter.1 h
        rw [Bool.not_eq_true', GroupKey.equal_comm] at hne
        rw [hne, if_neg Bool.false_ne_true]
        exact ih hx

end

theorem groupCell_of_head? {rows : List Row} {row : Row} (h : rows.head? = some row)
    (columns : List String) (name : String) :
    groupCell (rows.map (cell columns)) name = cell columns row name := by
  cases rows with
  | nil => cases h
  | cons first rest =>
      cases h
      rfl

namespace Semantics

variable {ω : Type} (M : Semantics ω)

theorem keys_summarise {t : RowSet} {groups : List String} (hgroups : groups ≠ [])
    (assignments : List (String × Expr)) :
    (M.summarise { t with groups } assignments).keys groups =
      (representatives (fun row => groups.map (cell t.columns row)) t.rows).map
        fun row => groups.map (cell t.columns row) := by
  rw [RowSet.keys_eq, summarise, RowSet.grouped, if_neg (by simpa using hgroups), groupsBy,
    List.map_map, List.map_map]
  refine List.map_congr_left fun row hrow => List.map_congr_left fun g hg => ?_
  refine (cell_append_left (List.length_map _) hg).trans ((cell_map_self hg _).trans ?_)
  exact groupCell_of_head? (head?_filter_of_mem_representatives hrow) t.columns g

theorem hasRowPerKey_summarise (t : RowSet) {groups : List String} (hgroups : groups ≠ [])
    (assignments : List (String × Expr)) :
    (M.summarise { t with groups } assignments).HasRowPerKey t groups where
  distinct := by
    rw [M.keys_summarise hgroups]
    exact List.pairwise_map.2 (pairwise_representatives _ _)
  subset := by
    rw [M.keys_summarise hgroups, RowSet.keys_eq]
    exact List.map_subset _ fun row hrow => mem_of_mem_representatives hrow
  covers := by
    rw [M.keys_summarise hgroups, RowSet.keys_eq]
    rintro _ hk
    obtain ⟨row, hrow, rfl⟩ := List.mem_map.1 hk
    have hfirst : ∃ first ∈ representatives (fun row => groups.map (cell t.columns row)) t.rows,
        GroupKey.equal (groups.map (cell t.columns first)) (groups.map (cell t.columns row)) =
          true := exists_representative hrow
    obtain ⟨first, hfirst, hequal⟩ := hfirst
    exact ⟨_, List.mem_map_of_mem hfirst, hequal⟩

end Semantics

/-! ## Summaries -/

/-- An assignment of a summary, written from a term. -/
def Item.ofTerm (a : String × Expr) (t : Term) : Item where
  name := a.1
  value := .computed { expr := a.2, window := none, sql := t.text false }

theorem exists_terms (aggregates : String → Nat → Bool) {assignments : List (String × Expr)}
    {computed : List Item} (h : List.Forall₂ (Item.Computes c) assignments computed) :
    ∃ terms, List.Forall₂ (fun a t => c.term? .scalar a.2 = some t) assignments terms ∧
      computed = List.zipWith Item.ofTerm assignments terms ∧
      computed.any (Item.hasAggregate c aggregates) = terms.any (Term.hasAggregate aggregates) := by
  induction h with
  | nil => exact ⟨[], .nil, rfl, rfl⟩
  | @cons a item _ _ hitem _ ih =>
      obtain ⟨⟨expr, window, sql⟩, ⟨hwindow, warnings, later, hsql⟩, hexpr, rfl⟩ := hitem
      cases hwindow
      cases hexpr
      obtain ⟨t, ht, rfl⟩ := Compiler.exists_term_of_compile hsql
      obtain ⟨terms, hterms, rfl, hany⟩ := ih
      have hitem : Item.hasAggregate c aggregates (.ofTerm a t) = t.hasAggregate aggregates := by
        change (c.term? .scalar a.2).any _ = _
        rw [ht, Option.any_some]
      refine ⟨t :: terms, .cons ht hterms, rfl, ?_⟩
      rw [List.any_cons, List.any_cons, hany]
      exact congrArg (· || _) hitem

theorem Body.collapses_summary (c : Compiler) (aggregates : String → Nat → Bool) (b : Body)
    (groups : List String) (computed : List Item) :
    (b.summary groups computed).collapses c aggregates =
      (!groups.isEmpty || computed.any (Item.hasAggregate c aggregates)) := by
  have hcolumns : (groups.map Item.column).any (Item.hasAggregate c aggregates) = false := by
    rw [List.any_map]
    exact List.any_eq_false.2 fun _ _ => Bool.false_ne_true
  rw [collapses, summary, List.any_append, hcolumns, Bool.false_or]

/-- The aggregates among the functions that are known from the start. -/
def isStandardAggregate (function : String) (arity : Nat) : Bool :=
  ["AVG", "SUM", "MIN", "MAX", "STDDEV_SAMP", "VAR_SAMP"].contains function && arity == 1

namespace Windows

variable {ω : Type} {W : Windows ω} {source : Source} {s : State}

/-- The rows that a level denotes as it is written. -/
def written (W : Windows ω) (c : Compiler) (aggregates : String → Nat → Bool) (level : Level) :
    RowSet :=
  W.read (level.asWritten c aggregates)

theorem envs_written_wrap (level : Level) (name : String) :
    (W.written c aggregates (level.wrap name)).envs = (W.written c aggregates level).envs := by
  rw [written, Level.asWritten_wrap, envs_read_wrap, written]

/-- Without groups and aggregates, what is assigned is assigned to every row. -/
theorem readBody_summary_rows {b : Body} (hb : b.IsSelection c)
    {assignments : List (String × Expr)} {computed : List Item}
    (hassignments : ∀ a ∈ assignments, ∀ n ∈ a.2.columns, n ∈ b.outputs)
    (hcomputed : List.Forall₂ (Item.Computes c) assignments computed) (left : List Env)
    (t : RowSet) :
    (W.readBody { b.summary [] computed with aggregated := false } left
        (t.envs.map fun row _ => row)).rows =
      (W.readBody b left (t.envs.map fun row _ => row)).envs.map fun row =>
        assignments.map fun a => W.value a.2 [row] := by
  have hsummary := hb.compiled.summary [] hcomputed
  have hrows : Body.IsCompiled c { b.summary [] computed with aggregated := false } :=
    ⟨hsummary.items, hsummary.filters⟩
  rw [readBody_of_isCompiled hrows, readBody_of_isCompiled hb.compiled,
    W.toSemantics.readBody_eq _ rfl, W.toSemantics.readBody_eq b hb.aggregated, RowSet.envs,
    List.map_map, List.map_map]
  refine List.map_congr_left fun row _ => ?_
  exact W.toSemantics.readRow_summary hb.canReference (by simp) hassignments hcomputed t [row]

/-- What a summary is read from, and what it is written as. -/
theorem ensures_summarise_written (aggregates : String → Nat → Bool) (hs : Reached c source s)
    (assignments : List (String × Expr)) :
    (c.summarise s assignments).Ensures fun s' => ∃ (b : Body) (left : List Env) (t : RowSet)
      (computed : List Item),
      (b.IsSelection c ∧ b.outputs = s.columns) ∧
      ((∀ a ∈ assignments, ∀ n ∈ a.2.columns, n ∈ b.outputs) ∧
        List.Forall₂ (Item.Computes c) assignments computed) ∧
      s'.level.body = b.summary s.groups computed ∧
      (W.written c aggregates s.level).envs =
        (W.readBody b left (t.envs.map fun row _ => row)).envs ∧
      W.written c aggregates s'.level =
        W.readBody ((b.summary s.groups computed).asWritten c aggregates) left
          (t.envs.map fun row _ => row) := by
  refine (ensures_summary hs (Q := fun level =>
    (W.written c aggregates level).envs = (W.written c aggregates s.level).envs) rfl
      (envs_written_wrap s.level) assignments).imp ?_
  rintro s' ⟨s₁, computed, h₁, ⟨hselection, hjoin, hwritten⟩, hcomputed, hs'⟩
  have hself : s₁.level.body.asWritten c aggregates = s₁.level.body :=
    Body.asWritten_eq_self hselection.aggregated (h₁.reached.groupBy_eq_nil hselection.aggregated)
      hselection.identity
  obtain ⟨left, rows, hread, hfrom⟩ := W.exists_from (s₁.level.asWritten c aggregates)
  obtain ⟨t, rfl⟩ := hfrom (by rwa [Level.isJoin_asWritten])
  have hlevel : ∀ b : Body, b.inputs = s₁.level.body.inputs →
      W.written c aggregates (s₁.level.withBody b) =
        W.readBody (b.asWritten c aggregates) left (t.envs.map fun row _ => row) := by
    intro b hinputs
    rw [written, Level.asWritten_withBody]
    exact hread _ (by rw [Level.body_asWritten]; exact hinputs)
  refine ⟨s₁.level.body, left, t, computed, ⟨hselection, h₁.columns⟩, hcomputed, ?_, ?_, ?_⟩
  · rw [hs', Level.body_withBody]
  · have hbody := hlevel s₁.level.body rfl
    rw [Level.withBody_body, hself] at hbody
    rw [← hwritten, hbody]
  · rw [hs', hlevel _ (by rfl)]

/-- A summary with groups has one row for every key among the rows, whatever is assigned. Without
groups it has a single row if one of the terms that it is written from calls an aggregate, and if
none does, it has a row for every row that there was. -/
theorem summarise_written (W : Windows ω) (c : Compiler) (aggregates : String → Nat → Bool)
    {source : Source} {s s' : State} {assignments : List (String × Expr)} {p later : Progress}
    (hs : Reached c source s)
    (hrun : (c.summarise s assignments).run p = .ok (s', later)) :
    let t := W.written c aggregates s.level
    let t' := W.written c aggregates s'.level
    (∀ d, (s'.level.asWritten c aggregates).render d = s'.level.render d) ∧
    ∃ terms, List.Forall₂ (fun a t => c.term? .scalar a.2 = some t) assignments terms ∧
      (s'.level.body.groupBy = s.groups ∧ s'.level.body.items =
        s.groups.map Item.column ++ List.zipWith Item.ofTerm assignments terms) ∧
      (s.groups ≠ [] → t'.HasRowPerKey t s.groups) ∧
      (s.groups = [] → terms.any (Term.hasAggregate aggregates) = true → t'.rows.length = 1) ∧
      (s.groups = [] → terms.any (Term.hasAggregate aggregates) = false →
        t'.rows = t.envs.map fun row => assignments.map fun a => W.value a.2 [row]) := by
  intro t t'
  refine ⟨fun d => s'.level.render_asWritten d, ?_⟩
  obtain ⟨b, left, source', computed, ⟨hselection, hcolumns⟩, ⟨hassignments, hcomputed⟩, hbody,
    hbefore, hafter⟩ :=
      ensures_summarise_written (W := W) aggregates hs assignments p s' later hrun
  obtain ⟨terms, hterms, hitems, hany⟩ := exists_terms aggregates hcomputed
  have hcollapses := b.collapses_summary c aggregates s.groups computed
  rw [hany] at hcollapses
  have hgroups : ∀ g ∈ s.groups, g ∈ b.outputs := hcolumns ▸ hs.isClosed.groups
  -- a level that collapses is read as what it says of itself
  have hsummary : (b.summary s.groups computed).collapses c aggregates = true →
      t' = (W.toSemantics.summarise { W.readBody b left (source'.envs.map fun row _ => row) with
        groups := s.groups } assignments).toRowSet := by
    intro htrue
    have hself : (b.summary s.groups computed).asWritten c aggregates =
        b.summary s.groups computed := by
      rw [Body.asWritten, htrue]
      rfl
    refine hafter.trans ?_
    rw [hself]
    exact readBody_summary hselection hgroups hassignments hcomputed left source'
  refine ⟨terms, hterms, ⟨by rw [hbody]; rfl, by rw [hbody, ← hitems]; rfl⟩, fun hsome => ?_,
    fun hnone haggregate => ?_, fun hnone haggregate => ?_⟩
  · rw [hsummary (by rw [hcollapses]; simp [hsome])]
    exact (W.toSemantics.hasRowPerKey_summarise _ hsome assignments).of_envs hbefore.symm
  · rw [hsummary (by rw [hcollapses, haggregate, Bool.or_true]), hnone]
    rfl
  · have hfalse : (b.summary s.groups computed).asWritten c aggregates =
        { b.summary [] computed with aggregated := false } := by
      rw [Body.asWritten, hcollapses, hnone, haggregate]
      rfl
    refine (congrArg RowSet.rows hafter).trans ?_
    rw [hfalse, hbefore]
    exact readBody_summary_rows hselection hassignments hcomputed left source'

/-- Groups, of which one has a null key, have a row each even if a constant is all that is assigned
to them. -/
theorem summarise_written_constant :
    let rows := [[.utf8 "a", .int64 1], [.null, .int64 4], [.utf8 "a", .int64 2]]
    let W := integers (rows.map (cell ["g", "x"]))
    let c : Compiler := .builtin .ansi .default
    let source : Source := { schema := none, name := "t", columns := ["g", "x"] }
    let s : State := { State.ofSource source with groups := ["g"] }
    ∃ s' later, (c.summarise s [("one", .literal (.int64 1))]).run .start = .ok (s', later) ∧
      (W.written c isStandardAggregate s'.level).HasRowPerKey
        (W.written c isStandardAggregate s.level) ["g"] := by
  intro rows W c source s
  obtain ⟨⟨s', later⟩, hrun⟩ := exists_of_isOk
    (r := (c.summarise s [("one", .literal (.int64 1))]).run .start) (by decide +kernel)
  have hs : Reached c source s := Reached.start.move (.regroup (by decide))
  obtain ⟨_, terms, _, _, hgrouped, _⟩ :=
    summarise_written W c isStandardAggregate hs hrun
  exact ⟨s', later, hrun, hgrouped (by decide)⟩

/-- Rows that do not collapse: a constant is written without an aggregate, and so is a count that
is looked for among no candidates. The count by itself has a single row. -/
theorem summarise_keeps_rows :
    let rows := [[.int64 7], [.int64 8]]
    let W := integers (rows.map (cell ["x"]))
    let source : Source := { schema := none, name := "t", columns := ["x"] }
    let count : Expr := .plainCall "n" []
    let summary e := ((Compiler.build (.builtin .ansi .default)
      { source, ops := [.summarise [("a", e)]] }).run .start).toOption.map fun built =>
        ((built.1.level.render .ansi).toOption,
          (W.written (.builtin .ansi .default) isStandardAggregate built.1.level).rows.length)
    summary (.literal (.int64 1)) = some (some "SELECT 1 AS \"a\" FROM \"t\"", 2) ∧
      summary (.inList count []) = some (some "SELECT FALSE AS \"a\" FROM \"t\"", 2) ∧
      summary count = some (some "SELECT COUNT(*) AS \"a\" FROM \"t\"", 1) := by
  decide +kernel

end Windows

end SqlChain
