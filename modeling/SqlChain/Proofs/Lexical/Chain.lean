import SqlChain.Proofs.Clauses
import SqlChain.Proofs.Lexical.Statement

/-!
# Chains of operations

Every operation of a chain keeps the level of its state sound. So whatever a chain is rendered to
leaves no quote and no parenthesis open, and begins no comment (`render_accepts`).
-/

namespace SqlChain.Lexical

variable {c : Compiler}

def IsSoundState (c : Compiler) (s : State) : Prop := IsSoundLevel c.dialect s.level

/-- A step that leaves the level sound. -/
def IsSoundStep (c : Compiler) (m : BuildM State) : Prop := m.Ensures (IsSoundState c)

theorem isSoundState_ofSource (source : Source) : IsSoundState c (.ofSource source) :=
  isSoundBody_identity source.columns

theorem isSoundLevel_subquery_identity {level : Level} (h : IsSoundLevel c.dialect level)
    (tableName : String) (columns : List String) :
    IsSoundLevel c.dialect (.subquery level tableName (.identity columns)) :=
  ⟨h, isSoundBody_identity columns⟩

theorem isSoundStep_wrapIf {s : State} (hs : IsSoundState c s) (condition : Bool) :
    IsSoundStep c (s.wrapIf condition) := by
  rw [State.wrapIf]
  split
  · refine BuildM.Ensures.bind (.trivial _) fun name _ => .pure ?_
    exact isSoundLevel_subquery_identity hs name _
  · exact .pure hs

theorem isSoundItem_column (name : String) : IsSoundItem c.dialect (.column name) := True.intro

/-! ## Selections -/

theorem isSoundState_project {s : State} (hs : IsSoundState c s) (idents : List Ident) :
    IsSoundState c (s.project idents) := by
  refine hs.withBody ⟨?_, hs.body.filters⟩
  intro item hitem
  obtain ⟨found, hfound, hvalue⟩ := Body.exists_of_mem_selected hitem
  have hsound := hs.body.items found hfound
  rw [IsSoundItem] at hsound ⊢
  rwa [hvalue]

theorem isSoundStep_select {s : State} (hs : IsSoundState c s) (idents : List Ident) :
    IsSoundStep c (s.select idents) := by
  refine BuildM.Ensures.bind (.trivial _) fun _ _ => ?_
  refine BuildM.Ensures.bind (.trivial _) fun _ _ => .pure ?_
  exact isSoundState_project hs _

theorem isSoundStep_rename {s : State} (hs : IsSoundState c s) (pairs : List (String × String)) :
    IsSoundStep c (Compiler.rename s pairs) := by
  refine BuildM.Ensures.bind (.trivial _) fun _ _ => ?_
  dsimp only
  split
  · exact .throw _
  · exact isSoundStep_select hs _

/-! ## Assignments -/

theorem isSoundBody_setItem {b : Body} (hb : IsSoundBody c.dialect b) (item : Item)
    (hitem : IsSoundItem c.dialect item) : IsSoundBody c.dialect (b.setItem item) := by
  refine ⟨?_, hb.filters⟩
  intro other hother
  rcases Body.mem_putItem hother with rfl | hother
  · exact hitem
  · exact hb.items other hother

section

variable (h : IsStrict c)

include h

theorem isSoundStep_filterRows {s : State} (hs : IsSoundState c s) (predicate : Expr) :
    IsSoundStep c (c.filterRows s predicate) := by
  refine (isSoundStep_wrapIf hs _).bind fun s hs => ?_
  refine (BuildM.Ensures.compiling (ensures_compile h _ _)).bind fun sql hsql => .pure ?_
  refine hs.withBody ⟨hs.body.items, ?_⟩
  intro filter hfilter
  rcases List.mem_append.1 hfilter with hfilter | hfilter
  · exact hs.body.filters filter hfilter
  · rw [List.mem_singleton.1 hfilter]
    exact hsql

theorem isSoundStep_assign {s : State} (hs : IsSoundState c s) (windowed : Bool) (name : String)
    (e : Expr) : IsSoundStep c (c.assign s windowed name e) := by
  refine (isSoundStep_wrapIf hs _).bind fun s hs => ?_
  refine (BuildM.Ensures.compiling (ensures_compile h _ _)).bind fun sql hsql => .pure ?_
  refine hs.withBody ⟨(isSoundBody_setItem hs.body _ ?_).items, hs.body.filters⟩
  exact hsql

/-! ## Windows without `OVER` -/

theorem ensures_correlatedRank {source : String} (hsource : IsClosed c.dialect source)
    (dense : Bool) (key : Expr) (groups : List String) :
    (c.correlatedRank source dense key groups).Ensures fun r => IsClosed c.dialect r.sql := by
  have hcomposes := composes_isClosed h.toIsReadable
  refine (BuildM.Ensures.compiling (ensures_compileOperand h _ _)).bind fun inner hinner => ?_
  refine (BuildM.Ensures.compiling (ensures_compileOperand h _ _)).bind fun outer houter => ?_
  refine BuildM.Ensures.bind (.lift fun _ hsame => hcomposes.matchGroups hsame) fun same hsame => ?_
  refine BuildM.Ensures.bind (.lift fun _ htable => htable) fun table htable => .pure ?_
  exact hcomposes.rank hinner houter hsource htable hsame

theorem ensures_emulate {source : String} (hsource : IsClosed c.dialect source)
    (groups : List String) (x : ExtractedCall) :
    (c.emulate source groups x).Ensures fun e =>
      (∀ item ∈ e.aggregate?, IsSoundItem c.dialect item) ∧
        ∀ item ∈ e.rank?, IsSoundItem c.dialect item := by
  unfold Compiler.emulate
  dsimp only
  split
  · exact .throw _
  · split
    · refine (BuildM.Ensures.compiling (ensures_compile h _ _)).bind fun sql hsql => .pure ?_
      refine ⟨?_, by rintro _ ⟨⟩⟩
      rintro _ ⟨⟩
      exact hsql
    · split
      · split
        · exact .throw _
        · refine (ensures_correlatedRank h hsource _ _ groups).bind fun rank hrank => .pure ?_
          refine ⟨by rintro _ ⟨⟩, ?_⟩
          rintro _ ⟨⟩
          exact hrank
      · exact .throw _

theorem isSoundStep_emulateAll {s : State} (hs : IsSoundState c s) (calls : List ExtractedCall) :
    IsSoundStep c (c.emulateAll s calls) := by
  refine BuildM.Ensures.bind (.lift fun _ hsource => isClosed_render h.toIsReadable hs hsource)
    fun source hsource => ?_
  refine BuildM.Ensures.bind (.mapM_forall fun x _ => ensures_emulate h hsource s.groups x)
    fun emulated hemulated => ?_
  have hcolumns : ∀ (side : Side) (names : List String), ∀ item ∈ names.map (Item.ofSide side),
      IsSoundItem c.dialect item := by
    intro side names item hitem
    obtain ⟨name, _, rfl⟩ := List.mem_map.1 hitem
    exact True.intro
  have haggregates : ∀ item ∈ emulated.filterMap Compiler.Emulated.aggregate?,
      IsSoundItem c.dialect item := by
    intro item hitem
    obtain ⟨e, he, hitem⟩ := List.mem_filterMap.1 hitem
    exact (hemulated e he).1 item hitem
  have hranks : ∀ item ∈ emulated.filterMap Compiler.Emulated.rank?, IsSoundItem c.dialect item := by
    intro item hitem
    obtain ⟨e, he, hitem⟩ := List.mem_filterMap.1 hitem
    exact (hemulated e he).2 item hitem
  dsimp only
  split
  · refine .pure ⟨hs, ?_, by simp [Body.identity]⟩
    exact List.forall_mem_append.2 ⟨hcolumns .left s.columns, hranks⟩
  · refine BuildM.Ensures.bind (.trivial _) fun name _ => ?_
    have hcomposes := composes_isClosed h.toIsReadable
    refine BuildM.Ensures.bind (.lift fun _ hon => hcomposes.matching hon) fun on hon => .pure ?_
    refine ⟨hs, ⟨hs, ?_, by simp [Body.identity]⟩, hon, ?_, by simp [Body.identity]⟩
    · refine List.forall_mem_append.2 ⟨?_, haggregates⟩
      intro item hitem
      obtain ⟨name, _, rfl⟩ := List.mem_map.1 hitem
      exact isSoundItem_column name
    · refine List.forall_mem_append.2
        ⟨List.forall_mem_append.2 ⟨hcolumns .left s.columns, ?_⟩, hranks⟩
      intro item hitem
      obtain ⟨item, _, rfl⟩ := List.mem_map.1 hitem
      exact True.intro

/-! ## Operations -/

theorem isSoundStep_materialise {s : State} (hs : IsSoundState c s) (calls : List ExtractedCall) :
    IsSoundStep c (c.materialise s calls) := by
  rw [Compiler.materialise]
  split
  · exact isSoundStep_emulateAll h hs calls
  · have hnative : ∀ s, IsSoundState c s → ∀ xs : List ExtractedCall,
        IsSoundStep c (xs.foldlM (fun s x => c.assign s true x.temporary x.call) s) :=
      fun s hs xs => .foldlM hs fun s hs x _ => isSoundStep_assign h hs true x.temporary x.call
    dsimp only
    split
    · exact hnative s hs _
    · exact (isSoundStep_emulateAll h hs _).bind fun s hs => hnative s hs _

theorem isSoundStep_filter {s : State} (hs : IsSoundState c s) (predicate : Expr) :
    IsSoundStep c (c.filter s predicate) := by
  refine BuildM.Ensures.bind (.trivial _) fun _ _ => ?_
  split
  · refine BuildM.Ensures.bind (.trivial _) fun extracted _ => ?_
    refine (isSoundStep_materialise h hs _).bind fun s' hs' => ?_
    refine (isSoundStep_filterRows h hs' _).bind fun filtered hfiltered => ?_
    exact isSoundStep_select hfiltered _
  · exact isSoundStep_filterRows h hs predicate

theorem isSoundStep_mutate {s : State} (hs : IsSoundState c s) (name : String) (e : Expr) :
    IsSoundStep c (c.mutate s name e) := by
  refine BuildM.Ensures.bind (.trivial _) fun _ _ => ?_
  split
  · exact isSoundStep_assign h hs false name e
  · split
    · exact isSoundStep_assign h hs true name e
    · refine BuildM.Ensures.bind (.trivial _) fun extracted _ => ?_
      refine (isSoundStep_materialise h hs _).bind fun s' hs' => ?_
      refine (isSoundStep_assign h hs' false name _).bind fun assigned hassigned => ?_
      exact isSoundStep_select hassigned _

theorem isSoundStep_summarise {s : State} (hs : IsSoundState c s)
    (assignments : List (String × Expr)) : IsSoundStep c (c.summarise s assignments) := by
  refine BuildM.Ensures.bind (.trivial _) fun _ _ => ?_
  refine (isSoundStep_wrapIf hs _).bind fun s hs => ?_
  have hitem : ∀ a ∈ assignments, (c.summaryItem a.1 a.2).Ensures (IsSoundItem c.dialect) := by
    intro a _
    exact (BuildM.Ensures.compiling (ensures_compile h _ _)).bind fun sql hsql => .pure hsql
  refine BuildM.Ensures.bind (.mapM_forall hitem) fun computed hcomputed => .pure ?_
  refine hs.withBody ⟨List.forall_mem_append.2 ⟨?_, hcomputed⟩, hs.body.filters⟩
  intro item hmem
  obtain ⟨name, _, rfl⟩ := List.mem_map.1 hmem
  exact isSoundItem_column name

theorem isSoundStep_step {s : State} (hs : IsSoundState c s) (op : Op) :
    IsSoundStep c (c.step s op) := by
  cases op with
  | select idents => exact isSoundStep_select hs idents
  | rename pairs => exact isSoundStep_rename hs pairs
  | filter predicates => exact .foldlM hs fun s hs e _ => isSoundStep_filter h hs e
  | mutate assignments => exact .foldlM hs fun s hs a _ => isSoundStep_mutate h hs a.1 a.2
  | summarise assignments => exact isSoundStep_summarise h hs assignments
  | arrange keys =>
      refine .lift fun next hnext => ?_
      obtain ⟨_, _, hnext⟩ := exists_of_bind_eq_ok hnext
      cases hnext
      exact hs
  | groupBy keys add =>
      refine .lift fun next hnext => ?_
      obtain ⟨_, _, hnext⟩ := exists_of_bind_eq_ok hnext
      cases hnext
      exact hs
  | ungroup => exact .pure hs

theorem isSoundStep_build (q : Query) : IsSoundStep c (c.build q) :=
  .foldlM (isSoundState_ofSource q.source) fun _ hs op _ => isSoundStep_step h hs op

theorem isSoundStep_arranged {s : State} (hs : IsSoundState c s) (mode : Mode) :
    IsSoundStep c (Query.arranged c mode s) := by
  cases mode with
  | plain => exact .pure hs
  | groups =>
      rw [Query.arranged, State.groupOrdered]
      split
      · exact .pure hs
      · refine (isSoundStep_select hs _).bind fun selected hselected => .pure ?_
        exact hselected
  | labels =>
      rw [Query.arranged, Compiler.labels]
      split
      · exact BuildM.Ensures.bind (.throw _) fun _ (hfalse : False) => hfalse.elim
      · refine (isSoundStep_summarise h hs []).bind fun summary hsummary => .pure ?_
        exact hsummary

theorem ensures_finish {s : State} (hs : IsSoundState c s) :
    (c.finish s).Ensures fun r => IsClosed c.dialect r.sql := by
  refine (isSoundStep_wrapIf hs _).bind fun s hs => ?_
  refine BuildM.Ensures.bind (.lift fun _ hsql => isClosed_render h.toIsReadable hs hsql)
    fun sql hsql => ?_
  refine (BuildM.Ensures.compiling (ensures_compileKeys h _ _)).bind fun keys hkeys => ?_
  refine BuildM.Ensures.bind (.trivial _) fun _ _ => .pure ?_
  exact (composes_isClosed h.toIsReadable).orderBy hkeys hsql

end

/-- A statement leaves no quote and no parenthesis open and begins no comment, whatever stands in
the names and the strings of the query. -/
theorem render_accepts (b : Backend) (q : Query) (mode : Mode) (config : Config)
    (hstrict : config.strictSql = true) (r : Rendered)
    (hr : q.render mode b.dialect config = .ok r) : accepts b.dialect r.sql = true := by
  have h := isStrict_builtin b hstrict
  have hrendering : (Query.rendering (.builtin b.dialect config) mode q).Ensures fun r =>
      IsClosed b.dialect r.sql := by
    refine (isSoundStep_build h q).bind fun s hs => ?_
    exact (isSoundStep_arranged h hs mode).bind fun s hs => ensures_finish h hs
  obtain ⟨⟨rendered, p⟩, hrun, hr⟩ := exists_of_bind_eq_ok hr
  cases hr
  exact accepts_of_isClosed (hrendering _ _ _ hrun)

/-- Names and strings that are made of quotes, comments and parentheses, and a minus sign in front
of a negative number. -/
theorem render_accepts_hostile :
    let q : Query :=
      { source := { schema := some "a\"b", name := "t'--", columns := ["x\"; --", "y"] }
        ops := [
          .mutate [("z\")", .unary .negate (.literal (.int64 (-1))))],
          .filter [.binary .eq (.column "x\"; --") (.literal (.utf8 "'); /* \\"))]] }
    let config : Config := { Config.default with strictSql := true }
    ∃ r, q.render .plain Backend.ansi.dialect config = .ok r ∧
      accepts Backend.ansi.dialect r.sql = true := by
  intro q config
  obtain ⟨r, hr⟩ : ∃ r, q.render .plain Backend.ansi.dialect config = .ok r := by
    subst config q
    exact ⟨_, rfl⟩
  exact ⟨r, hr, render_accepts .ansi q .plain config rfl r hr⟩

end SqlChain.Lexical
