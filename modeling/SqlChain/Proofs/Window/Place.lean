import SqlChain.Proofs.Refusal.Reentry
import SqlChain.Proofs.Window.Builder

/-!
# Where windows may be

An expression is compiled for a window only where the dialect has window functions, and never with a
count of distinct values in it. No call that needs a window is left in a predicate, however deep it
stood and however often the predicate was taken apart. Every step of the builder keeps to this, also
one that fails.
-/

namespace SqlChain

variable {c : Compiler}

/-! ## Levels -/

/-- A window needs a dialect with window functions, and an expression that can do without a join. -/
def Fragment.IsPlaced (c : Compiler) (f : Fragment) : Prop :=
  f.window.isSome = true → c.hasWindows = true ∧ c.needsJoin f.expr = false

structure Body.IsPlaced (c : Compiler) (b : Body) : Prop where
  windowed : b.windowed = true → c.hasWindows = true
  items : ∀ item ∈ b.items, ∀ f, item.value = .computed f → f.IsPlaced c
  filters : ∀ f ∈ b.filters, f.window = none ∧ c.needsWindow f.expr = false

/-- Windows are only where they may be, in the level and in every level within it. -/
def Level.IsPlaced (c : Compiler) (level : Level) : Prop :=
  ∀ inner ∈ level.nest, inner.body.IsPlaced c

theorem Body.isPlaced_of_items {b : Body} (hwindowed : b.windowed = false)
    (hfilters : b.filters = [])
    (hitems : ∀ item ∈ b.items, ∀ f, item.value = .computed f → f.window = none) :
    b.IsPlaced c where
  windowed := by simp [hwindowed]
  items := by
    intro item hitem f hf hsome
    rw [hitems item hitem f hf] at hsome
    cases hsome
  filters := by simp [hfilters]

theorem Body.isPlaced_identity (columns : List String) : (identity columns).IsPlaced c := by
  refine isPlaced_of_items rfl rfl fun item hitem f hf => ?_
  obtain ⟨name, _, rfl⟩ := List.mem_map.1 hitem
  cases hf

namespace Level.IsPlaced

variable {level : Level}

theorem self (h : level.IsPlaced c) : level.body.IsPlaced c := h level level.mem_nest

theorem withBody (h : level.IsPlaced c) {b : Body} (hb : b.IsPlaced c) :
    (level.withBody b).IsPlaced c := by
  intro inner hinner
  rcases mem_nest_withBody hinner with rfl | hinner
  · rwa [body_withBody]
  · exact h inner hinner

theorem subquery (h : level.IsPlaced c) (tableName : String) {b : Body} (hb : b.IsPlaced c) :
    (Level.subquery level tableName b).IsPlaced c :=
  List.forall_mem_cons.2 ⟨hb, h⟩

theorem join {right : Level} (h : level.IsPlaced c) (hright : right.IsPlaced c) (on : Matching)
    {b : Body} (hb : b.IsPlaced c) : (Level.join level right on b).IsPlaced c :=
  List.forall_mem_cons.2 ⟨hb, List.forall_mem_append.2 ⟨h, hright⟩⟩

theorem wrap (h : level.IsPlaced c) (tableName : String) : (level.wrap tableName).IsPlaced c :=
  h.subquery tableName (Body.isPlaced_identity _)

end Level.IsPlaced

/-! ## Events -/

/-- What may be compiled, for what and under which context. -/
structure MayCompile (c : Compiler) (purpose : Purpose) (context : Context) (e : Expr)
    (succeeded : Bool) : Prop where
  window : context.window.isSome = true → c.hasWindows = true ∧ c.needsJoin e = false
  filter : purpose = .filter → c.needsWindow e = false
  summary : purpose = .summary → succeeded = true → e.any c.isWindowOnly = false

def Event.IsPlaced (c : Compiler) : Event → Prop
  | .compiled purpose context e succeeded => MayCompile c purpose context e succeeded
  | .reached s => s.level.IsPlaced c

/-- Without a window and outside of predicates and summaries, anything may be compiled. -/
theorem mayCompile_of_window {purpose : Purpose} {context : Context} {e : Expr} {succeeded : Bool}
    (hwindow : context.window = none) (hfilter : purpose ≠ .filter)
    (hsummary : purpose ≠ .summary) : MayCompile c purpose context e succeeded where
  window := by simp [hwindow]
  filter hpurpose := (hfilter hpurpose).elim
  summary hpurpose := (hsummary hpurpose).elim

namespace LoggedM

/-- A step after which windows are where they may be, as they were on the way. -/
def Places (c : Compiler) (m : LoggedM State) : Prop :=
  m.Keeps (Event.IsPlaced c) (·.level.IsPlaced c)

theorem Places.reached {s : State} (hs : s.level.IsPlaced c) : Places c (reached s) :=
  Keeps.reached hs hs

theorem Places.andReached {b : BuildM State} (hb : b.Ensures (·.level.IsPlaced c)) :
    Places c (lift b >>= LoggedM.reached) :=
  (Keeps.lift hb).bind fun _ hs => Places.reached hs

end LoggedM

open LoggedM

namespace Logged

variable {s : State}

/-- Compiling without a window, for anything but a predicate or a summary. -/
theorem keeps_compiling {α : Type} {purpose : Purpose} {context : Context} {e : Expr}
    {m : CompileM α} (hwindow : context.window = none) (hfilter : purpose ≠ .filter)
    (hsummary : purpose ≠ .summary) :
    (compiling purpose context e m).Keeps (Event.IsPlaced c) fun _ => True :=
  .compiling (fun _ _ _ _ => mayCompile_of_window hwindow hfilter hsummary)
    (mayCompile_of_window hwindow hfilter hsummary) fun _ _ _ _ => .intro

/-! ## Moves -/

theorem places_wrapIf (hs : s.level.IsPlaced c) (condition : Bool) :
    Places c (wrapIf condition s) := by
  refine .andReached ?_
  rw [State.wrapIf]
  split
  · exact BuildM.Ensures.bind (.trivial _) fun name _ => .pure (hs.wrap name)
  · exact .pure hs

theorem places_filterRows (hs : s.level.IsPlaced c) {e : Expr} (he : c.needsWindow e = false) :
    Places c (filterRows c s e) := by
  have hmay : ∀ succeeded, MayCompile c .filter .scalar e succeeded :=
    fun _ => ⟨by simp [Context.scalar], fun _ => he, by simp⟩
  refine Keeps.bind (places_wrapIf hs _) fun s hs => ?_
  refine (Keeps.compiling (fun _ _ _ _ => hmay true) (hmay false) fun _ _ _ _ => True.intro).bind
    fun sql _ => Places.reached (hs.withBody ⟨hs.self.windowed, hs.self.items, ?_⟩)
  exact List.forall_mem_append.2 ⟨hs.self.filters, by simp [he]⟩

theorem places_assign (hs : s.level.IsPlaced c) {windowed : Bool} (name : String) {e : Expr}
    (he : windowed = true → c.hasWindows = true ∧ c.needsJoin e = false) :
    Places c (assign c s windowed name e) := by
  refine Keeps.bind (places_wrapIf hs _) fun s hs => ?_
  have hwindow : ∀ (groups : List String) (order : List Expr),
      (if windowed then Context.windowed groups order else .scalar).window.isSome = true →
        c.hasWindows = true ∧ c.needsJoin e = false := by
    intro groups order hsome
    cases windowed with
    | false => cases hsome
    | true => exact he rfl
  have hmay : ∀ succeeded, MayCompile c .assignment _ e succeeded :=
    fun _ => ⟨hwindow s.groups s.order, by simp, by simp⟩
  refine (Keeps.compiling (fun _ _ _ _ => hmay true) (hmay false) fun _ _ _ _ => True.intro).bind
    fun sql _ => Places.reached (hs.withBody
      ⟨fun hflag => ?_, fun item hitem f hf => ?_, hs.self.filters⟩)
  · rcases Bool.or_eq_true_iff.1 hflag with hflag | rfl
    · exact hs.self.windowed hflag
    · exact (he rfl).1
  · rcases Body.mem_putItem hitem with rfl | hitem
    · cases hf
      exact hwindow s.groups s.order
    · exact hs.self.items item hitem f hf

theorem places_assigns (hs : s.level.IsPlaced c) (hwindows : c.hasWindows = true)
    {calls : List ExtractedCall} (hcalls : ∀ x ∈ calls, c.needsJoin x.call = false) :
    Places c (calls.foldlM (fun s x => assign c s true x.temporary x.call) s) :=
  Keeps.foldlM hs fun _ hs x hx => places_assign hs x.temporary fun _ => ⟨hwindows, hcalls x hx⟩

/-! ## Windows without `OVER` -/

theorem keeps_correlatedRank (source : String) (dense : Bool) (key : Expr) (groups : List String) :
    (correlatedRank c source dense key groups).Keeps (Event.IsPlaced c) fun _ => True := by
  refine (keeps_compiling rfl (by simp) (by simp)).bind fun _ _ => ?_
  refine (keeps_compiling rfl (by simp) (by simp)).bind fun _ _ => ?_
  refine (Keeps.lift (.trivial _)).bind fun _ _ => ?_
  exact (Keeps.lift (.trivial _)).bind fun _ _ => .pure .intro

/-- An item that stands for a window call has no window. -/
theorem keeps_emulate (source : String) (groups : List String) (x : ExtractedCall) :
    (emulate c source groups x).Keeps (Event.IsPlaced c) fun emulated =>
      ∀ item, emulated.aggregate? = some item ∨ emulated.rank? = some item →
        ∀ f, item.value = .computed f → f.window = none := by
  unfold emulate
  cases c.functions.form? x.function x.args.length with
  | none => exact .throw _
  | some form =>
      dsimp only
      split
      · refine (keeps_compiling rfl (by simp) (by simp)).bind fun sql _ => .pure ?_
        rintro _ (⟨⟨⟩⟩ | ⟨⟨⟩⟩) f ⟨⟩
        rfl
      split
      · cases x.args with
        | nil => exact .throw _
        | cons key _ =>
            refine (keeps_correlatedRank source _ _ groups).bind fun rank _ => .pure ?_
            rintro _ (⟨⟨⟩⟩ | ⟨⟨⟩⟩) f ⟨⟩
      · exact .throw _

theorem places_emulateAll (hs : s.level.IsPlaced c) (calls : List ExtractedCall) :
    Places c (emulateAll c s calls) := by
  refine (Keeps.lift (.trivial _)).bind fun source _ => ?_
  refine (Keeps.mapM fun x _ => keeps_emulate source s.groups x).bind fun emulated hemulated => ?_
  have hcolumns : ∀ f : String → Item,
      (∀ name, ∃ side source, (f name).value = .column side source) →
      ∀ names : List String, ∀ item ∈ names.map f, ∀ g, item.value = .computed g →
        g.window = none := by
    intro f hf names item hitem g hg
    obtain ⟨name, _, rfl⟩ := List.mem_map.1 hitem
    obtain ⟨side, source, hvalue⟩ := hf name
    cases hvalue.symm.trans hg
  have haggregates : ∀ item ∈ emulated.filterMap Compiler.Emulated.aggregate?,
      ∀ f, item.value = .computed f → f.window = none := by
    intro item hitem
    obtain ⟨e, he, hitem⟩ := List.mem_filterMap.1 hitem
    exact hemulated e he item (.inl hitem)
  have hranks : ∀ item ∈ emulated.filterMap Compiler.Emulated.rank?,
      ∀ f, item.value = .computed f → f.window = none := by
    intro item hitem
    obtain ⟨e, he, hitem⟩ := List.mem_filterMap.1 hitem
    exact hemulated e he item (.inr hitem)
  have hside : ∀ side names, ∀ item ∈ List.map (Item.ofSide side) names,
      ∀ f, item.value = .computed f → f.window = none :=
    fun side => hcolumns _ fun name => ⟨some side, name, rfl⟩
  dsimp only
  split
  · refine Places.reached (hs.subquery _ (Body.isPlaced_of_items rfl rfl ?_))
    exact List.forall_mem_append.2 ⟨hside .left s.columns, hranks⟩
  · refine (Keeps.lift (.trivial _)).bind fun name _ => ?_
    refine (Keeps.lift (.trivial _)).bind fun on _ => Places.reached ?_
    refine hs.join (hs.subquery name (Body.isPlaced_of_items rfl rfl ?_)) on
      (Body.isPlaced_of_items rfl rfl ?_)
    · refine List.forall_mem_append.2 ⟨?_, haggregates⟩
      exact hcolumns _ (fun name => ⟨none, name, rfl⟩) s.groups
    · refine List.forall_mem_append.2 ⟨List.forall_mem_append.2 ⟨hside .left s.columns, ?_⟩, hranks⟩
      intro item hitem f hf
      obtain ⟨aggregate, _, rfl⟩ := List.mem_map.1 hitem
      cases hf

theorem places_materialise (hs : s.level.IsPlaced c) (calls : List ExtractedCall) :
    Places c (materialise c s calls) := by
  rw [materialise]
  split
  · exact places_emulateAll hs calls
  next hwindows =>
  rw [List.partition_eq_filter_filter]
  dsimp only
  have hnative : ∀ x ∈ calls.filter (not ∘ fun x => c.needsJoin x.call),
      c.needsJoin x.call = false :=
    fun x hx => by simpa using (List.mem_filter.1 hx).2
  split
  · exact places_assigns hs (by simpa using hwindows) hnative
  · exact Keeps.bind (places_emulateAll hs _) fun s hs =>
      places_assigns hs (by simpa using hwindows) hnative

/-! ## Operations -/

theorem ensures_select (hs : s.level.IsPlaced c) (idents : List Ident) :
    (s.select idents).Ensures (·.level.IsPlaced c) := by
  refine BuildM.Ensures.bind (.trivial _) fun _ _ => ?_
  refine BuildM.Ensures.bind (.trivial _) fun _ _ => .pure ?_
  refine hs.withBody ⟨hs.self.windowed, fun item hitem f hf => ?_, hs.self.filters⟩
  obtain ⟨found, hfound, hvalue⟩ := Body.exists_of_mem_selected hitem
  exact hs.self.items found hfound f (hvalue.symm.trans hf)

theorem ensures_rename (hs : s.level.IsPlaced c) (pairs : List (String × String)) :
    (Compiler.rename s pairs).Ensures (·.level.IsPlaced c) := by
  refine BuildM.Ensures.bind (.trivial _) fun _ _ => ?_
  dsimp only
  split
  · exact .throw _
  · exact ensures_select hs _

theorem places_selectNames (hs : s.level.IsPlaced c) (names : List String) :
    Places c (selectNames s names) :=
  .andReached (ensures_select hs _)

theorem places_filter (hs : s.level.IsPlaced c) (e : Expr) : Places c (filter c s e) := by
  refine (Keeps.lift (.trivial _)).bind fun _ _ => ?_
  split
  · refine (Keeps.lift (BuildM.ensures_extracting_window c e)).bind ?_
    rintro ⟨rest, calls⟩ ⟨_, hrest⟩
    refine Keeps.bind (places_materialise hs calls) fun placed hplaced => ?_
    exact Keeps.bind (places_filterRows hplaced hrest) fun rows hrows =>
      places_selectNames hrows s.columns
  · next hwindow => exact places_filterRows hs (by simpa using hwindow)

theorem places_mutate (hs : s.level.IsPlaced c) (name : String) (e : Expr) :
    Places c (mutate c s name e) := by
  refine (Keeps.lift (.trivial _)).bind fun _ _ => ?_
  split
  · exact places_assign hs name (by simp)
  split
  · next hnative => exact places_assign hs name fun _ => by simpa using hnative
  refine (Keeps.lift (.trivial _)).bind fun taken _ => ?_
  refine Keeps.bind (places_materialise hs taken.2) fun placed hplaced => ?_
  exact Keeps.bind (places_assign hplaced name (by simp)) fun assigned hassigned =>
    places_selectNames hassigned _

theorem keeps_summaryItem (hc : c.LooksAtAll) (name : String) (e : Expr) :
    (summaryItem c name e).Keeps (Event.IsPlaced c) fun item =>
      ∀ f, item.value = .computed f → f.window = none := by
  have hgrants := (Compiler.grants_compile hc .scalar e).ensures
  refine (Keeps.compiling (fun before sql later hrun => ?_) ?_ hgrants).bind fun sql _ => .pure ?_
  · exact ⟨by simp [Context.scalar], by simp, fun _ _ => hgrants before sql later hrun rfl⟩
  · exact ⟨by simp [Context.scalar], by simp, by simp⟩
  · rintro f ⟨⟩
    rfl

theorem places_summarise (hc : c.LooksAtAll) (hs : s.level.IsPlaced c)
    (assignments : List (String × Expr)) : Places c (summarise c s assignments) := by
  refine (Keeps.lift (.trivial _)).bind fun _ _ => ?_
  refine Keeps.bind (places_wrapIf hs _) fun s hs => ?_
  refine (Keeps.mapM fun a _ => keeps_summaryItem hc a.1 a.2).bind fun computed hcomputed => ?_
  refine Places.reached (hs.withBody ⟨hs.self.windowed, fun item hitem f hf => ?_, hs.self.filters⟩)
  rcases List.mem_append.1 hitem with hitem | hitem
  · obtain ⟨name, _, rfl⟩ := List.mem_map.1 hitem
    cases hf
  · intro hsome
    rw [hcomputed item hitem f hf] at hsome
    cases hsome

theorem places_step (hc : c.LooksAtAll) (hs : s.level.IsPlaced c) (op : Op) :
    Places c (step c s op) := by
  cases op with
  | select idents => exact .andReached (ensures_select hs idents)
  | rename pairs => exact .andReached (ensures_rename hs pairs)
  | filter predicates => exact Keeps.foldlM hs fun s hs e _ => places_filter hs e
  | mutate assignments => exact Keeps.foldlM hs fun s hs a _ => places_mutate hs a.1 a.2
  | summarise assignments => exact places_summarise hc hs assignments
  | arrange keys =>
      refine .andReached (.lift fun next hnext => ?_)
      obtain ⟨_, _, hnext⟩ := exists_of_bind_eq_ok hnext
      cases hnext
      exact hs
  | groupBy keys add =>
      refine .andReached (.lift fun next hnext => ?_)
      obtain ⟨_, _, hnext⟩ := exists_of_bind_eq_ok hnext
      cases hnext
      exact hs
  | ungroup => exact Places.reached hs

/-! ## Statements -/

theorem places_build (hc : c.LooksAtAll) (q : Query) : Places c (build c q) := by
  have hsource : (State.ofSource q.source).level.IsPlaced c := by
    refine List.forall_mem_singleton.2 ?_
    exact Body.isPlaced_identity _
  exact Keeps.bind (Places.reached hsource) fun s hs =>
    Keeps.foldlM hs fun s hs op _ => places_step hc hs op

theorem places_arranged (hc : c.LooksAtAll) (hs : s.level.IsPlaced c) (mode : Mode) :
    Places c (arranged c mode s) := by
  cases mode with
  | plain => exact .pure hs
  | groups =>
      refine .andReached ?_
      rw [State.groupOrdered]
      split
      · exact .pure hs
      · exact (ensures_select hs _).bind fun selected hselected => .pure hselected
  | labels =>
      rw [arranged]
      split
      · exact Keeps.bind (.throw _) fun _ (hfalse : False) => hfalse.elim
      · exact Keeps.bind (places_summarise hc hs []) fun summary hsummary => Places.reached hsummary

theorem keeps_finish (hs : s.level.IsPlaced c) :
    (finish c s).Keeps (Event.IsPlaced c) fun _ => True := by
  refine Keeps.bind (places_wrapIf hs _) fun s _ => (Keeps.lift (.trivial _)).bind fun _ _ => ?_
  refine (Keeps.mapM fun key _ => keeps_compiling rfl (by simp) (by simp)).bind fun keys _ => ?_
  exact Keeps.bind (P := fun _ => True) (fun _ _ hlog => ⟨hlog, fun _ _ _ => .intro⟩)
    fun _ _ => .pure .intro

theorem keeps_rendering (hc : c.LooksAtAll) (mode : Mode) (q : Query) :
    (rendering c mode q).Keeps (Event.IsPlaced c) fun _ => True :=
  Keeps.bind (places_build hc q) fun _ hs =>
    Keeps.bind (places_arranged hc hs mode) fun _ hs => keeps_finish hs

end Logged

/-- Whatever happens while a query is rendered, windows are only where they may be. -/
theorem Query.isPlaced_of_mem_events (hc : c.LooksAtAll) (q : Query) (mode : Mode) :
    ∀ event ∈ q.events c mode, event.IsPlaced c :=
  (Logged.keeps_rendering hc mode q .start [] (by simp)).1

end SqlChain
