import SqlChain.Proofs.Chain.Built
import SqlChain.Proofs.Meaning.Placed

/-!
# Operations on levels with windows

What every operation does to the clauses of a level is what it does to the rows that the level
denotes, also where the level has windows.
-/

namespace SqlChain

open BuildM

variable {ω : Type} {W : Windows ω} {c : Compiler} {source : Source} {s : State} {l : Listing}

/-! ## Levels that only select and filter columns -/

theorem Fragment.isCompiled {f : Fragment} (hwindow : f.window = none) (hspelled : f.IsSpelled c) :
    f.IsCompiled c := by
  rw [Fragment.IsSpelled, hwindow] at hspelled
  exact ⟨hwindow, hspelled⟩

/-- Clauses that only select and filter columns, by compiled predicates. -/
structure Body.IsSelection (c : Compiler) (b : Body) : Prop where
  compiled : b.IsCompiled c
  aggregated : b.aggregated = false
  identity : b.items.all Item.isIdentity = true

theorem Reached.isSelection (h : Reached c source s) (hplain : s.level.isPlain = true) :
    s.level.body.IsSelection c ∧ s.level.isJoin = false := by
  simp only [Level.isPlain, Bool.and_eq_true, Bool.not_eq_true'] at hplain
  obtain ⟨⟨⟨haggregated, _⟩, hjoin⟩, hidentity⟩ := hplain
  refine ⟨⟨⟨fun item hitem => ?_, fun f hf => ?_⟩, haggregated, hidentity⟩, hjoin⟩
  · rw [Item.eq_column_of_isIdentity (List.all_eq_true.1 hidentity item hitem)]
    exact isCompiled_column item.name
  · have hspelled := (h.isSound s.level s.level.mem_nest).2.filters f hf
    exact Fragment.isCompiled (h.marksWindows.filters f hf) hspelled

theorem Body.IsSelection.canReference {b : Body} (h : b.IsSelection c) :
    b.canReference b.outputs = true :=
  Body.canReference_outputs h.identity fun _ hn => hn

namespace Windows

/-- The level of a state is read as the rows of a listing that is grouped and ordered alike. -/
structure Reads (W : Windows ω) (c : Compiler) (source : Source) (s : State) (l : Listing) :
    Prop where
  reached : Reached c source s
  level : W.read s.level = l.toRowSet
  groups : s.groups = l.groups
  order : s.order = l.order

namespace Reads

theorem columns (h : W.Reads c source s l) : s.columns = l.columns := by
  rw [State.columns, ← W.columns_read, h.level]

theorem window (h : W.Reads c source s l) :
    { partition := s.groups, order := s.order } = l.window := by
  rw [h.groups, h.order]
  rfl

theorem mem_window (h : W.Reads c source s l) : ∀ n ∈ l.window.columns, n ∈ l.columns := by
  rw [← h.window, ← h.columns]
  intro n hn
  rcases List.mem_append.1 hn with hn | hn
  · exact h.reached.isClosed.groups n hn
  · obtain ⟨key, hkey, hn⟩ := List.mem_flatMap.1 hn
    exact h.reached.isClosed.order key hkey n hn

theorem length_of_mem (h : W.Reads c source s l) {row : Row} (hrow : row ∈ l.rows) :
    row.length = l.columns.length := by
  rw [← h.columns]
  have hread : row ∈ (W.read s.level).rows := by rwa [h.level]
  exact W.length_of_mem_read hread

/-- What the clauses of the level are read over. -/
theorem exists_from (h : W.Reads c source s l) :
    ∃ left rows, l.toRowSet = W.readBody s.level.body left rows ∧
      (∀ b : Body, b.inputs = s.level.body.inputs →
        W.read (s.level.withBody b) = W.readBody b left rows) ∧
      (s.level.isJoin = false → ∃ t : RowSet, rows = t.envs.map fun row _ => row) := by
  obtain ⟨left, rows, hread, hjoin⟩ := W.exists_from s.level
  refine ⟨left, rows, ?_, hread, hjoin⟩
  rw [← h.level, ← hread _ rfl, Level.withBody_body]

theorem of_reaches (h : W.Reads c source s l) {s' : State} {l' : Listing} {columns : List String}
    (hs' : Reaches c source s columns s') (hlevel : W.read s'.level = l'.toRowSet)
    (hgroups : l'.groups = l.groups) (horder : l'.order = l.order) : W.Reads c source s' l' :=
  ⟨hs'.reached, hlevel, by rw [hs'.groups, h.groups, hgroups],
    by rw [hs'.order, h.order, horder]⟩

end Reads

/-! ## Clauses -/

theorem ensures_wrapIf (h : W.Reads c source s l) (hnodup : l.columns.Nodup) {condition : Bool}
    {Q : Level → Prop} (hkept : condition = false → Q s.level)
    (hwrapped : ∀ name, Q (s.level.wrap name)) :
    (s.wrapIf condition).Ensures fun s' => W.Reads c source s' l ∧ Q s'.level := by
  have houtputs : s.level.outputs.Nodup := by
    have hcolumns : s.level.outputs = l.columns := h.columns
    rwa [hcolumns]
  refine .of_after fun before => ?_
  refine (ensuresAfter_wrapIf h.reached (Q := fun level => W.read level = l.toRowSet ∧ Q level)
    (fun hcondition => ⟨h.level, hkept hcondition⟩) fun name => ⟨?_, hwrapped name⟩).imp ?_
  · rw [read_wrap houtputs, h.level]
  · rintro s' _ ⟨⟨hs', hlevel, hQ⟩, rfl⟩
    exact ⟨h.of_reaches hs' hlevel rfl rfl, hQ⟩

theorem ensures_filterRows (h : W.Reads c source s l) (hnodup : l.columns.Nodup) {e : Expr}
    (he : ∀ n ∈ e.columns, n ∈ l.columns) :
    (c.filterRows s e).Ensures fun s' =>
      W.Reads c source s' (l.restrict fun p => W.holds e p.here) := by
  rw [← h.columns] at he
  have hreaches : (c.filterRows s e).Ensures fun s' => Reaches c source s s.columns s' :=
    .of_after fun before => (ensuresAfter_filterRows h.reached he).imp fun _ _ h => h.1
  have hread : (c.filterRows s e).Ensures fun s' =>
      W.read s'.level = (l.restrict fun p => W.holds e p.here).toRowSet := by
    refine (ensures_wrapIf h hnodup (Q := fun level =>
      ((level.body.aggregated = false ∧ level.body.windowed = false) ∧ level.isJoin = false) ∧
        level.body.canReference e.columns = true) ?_ ?_).bind ?_
    · intro hcondition
      simpa using hcondition
    · exact fun name => ⟨⟨⟨rfl, rfl⟩, rfl⟩, Body.canReference_identity he⟩
    rintro s₁ ⟨h₁, ⟨⟨haggregated, hwindowed⟩, _⟩, href⟩
    refine (Ensures.trivial _).bind fun sql _ => .pure ?_
    obtain ⟨left, rows, hrows, hread, _⟩ := h₁.exists_from
    have hitems := h₁.reached.marksWindows.items hwindowed
    have hcolumns : s₁.level.body.outputs = l.columns := h₁.columns
    rw [hread _ (by rfl), readBody_filter haggregated hitems href, ← hrows, hcolumns]
    exact congrArg (RowSet.mk l.columns) (l.rows_restrict (W.holds e)).symm
  exact (hreaches.and hread).imp fun s' hs' => h.of_reaches hs'.1 hs'.2 rfl rfl

theorem ensures_assign (h : W.Reads c source s l) (hnodup : l.columns.Nodup) (windowed : Bool)
    (name : String) {e : Expr} (he : ∀ n ∈ e.columns, n ∈ l.columns) :
    (c.assign s windowed name e).Ensures fun s' =>
      W.Reads c source s' (l.assign name fun p =>
        if windowed then W.valueAt l.window p e else W.value e [p.here]) := by
  rw [← h.columns] at he
  have hreaches : (c.assign s windowed name e).Ensures fun s' =>
      Reaches c source s (withName s.columns name) s' :=
    .of_after fun before =>
      (ensuresAfter_assign h.reached windowed name he).imp fun _ _ h => h.1
  have hused : ∀ n ∈ e.columns ++
      (if windowed then s.groups ++ s.order.flatMap Expr.columns else []), n ∈ s.columns := by
    refine List.forall_mem_append.2 ⟨he, fun n hn => ?_⟩
    split at hn
    · have hn : n ∈ Window.columns { partition := s.groups, order := s.order } := hn
      rw [h.window] at hn
      rw [h.columns]
      exact h.mem_window n hn
    · cases hn
  have hread : (c.assign s windowed name e).Ensures fun s' =>
      W.read s'.level = (l.assign name fun p =>
        if windowed then W.valueAt l.window p e else W.value e [p.here]).toRowSet := by
    refine (ensures_wrapIf h hnodup (Q := fun level =>
      (level.body.aggregated = false ∧ level.isJoin = false) ∧
        level.body.canReference (e.columns ++
          if windowed then s.groups ++ s.order.flatMap Expr.columns else []) = true) ?_ ?_).bind ?_
    · intro hcondition
      simpa using hcondition
    · exact fun name => ⟨⟨rfl, rfl⟩, Body.canReference_identity hused⟩
    rintro s₁ ⟨h₁, ⟨haggregated, _⟩, href⟩
    refine (Ensures.trivial _).bind fun sql _ => .pure ?_
    obtain ⟨left, rows, hrows, hread, _⟩ := h₁.exists_from
    have houtputs : s₁.level.body.outputs.Nodup := by
      have hcolumns : s₁.level.body.outputs = l.columns := h₁.columns
      rwa [hcolumns]
    -- the state that may have been wrapped is grouped and ordered as before
    have hgroups : s₁.groups = s.groups := h₁.groups.trans h.groups.symm
    have horder : s₁.order = s.order := h₁.order.trans h.order.symm
    have hvalue : (W.fragmentAt { expr := e, sql, window :=
        (if windowed then Context.windowed s₁.groups s₁.order else .scalar).window }) =
          fun p => if windowed then W.valueAt l.window p e else W.value e [p.here] := by
      funext p
      rw [hgroups, horder, ← h.window]
      cases windowed <;> rfl
    rw [hread _ (by rfl), readBody_setItem haggregated houtputs name ?_ _ hrows, hvalue]
    rw [Fragment.columns, hgroups, horder]
    cases windowed with
    | false => exact href
    | true => simpa [Context.windowed] using href
  exact (hreaches.and hread).imp fun s' hs' => h.of_reaches hs'.1 hs'.2 rfl rfl

/-! ## Selections -/

theorem Reads.read_project (h : W.Reads c source s l) {idents : List Ident}
    (hnames : ∀ i ∈ idents, i.name ∈ s.columns) :
    W.read (s.project idents).level = (l.toRelation.project idents).toRowSet := by
  obtain ⟨left, rows, hrows, hread, _⟩ := h.exists_from
  have hselected := readBody_selected (W := W) (b := s.level.body) hnames left rows
  rw [State.project, hread _ (by rfl)]
  refine hselected.trans ?_
  have hcolumns : s.level.body.outputs = l.columns := h.columns
  rw [← hrows, hcolumns]
  rfl

theorem ensures_select (h : W.Reads c source s l) (idents : List Ident) :
    (s.select idents).Ensures fun s' => W.Reads c source s'
      { l.toRelation.select idents with order := (l.heading.select idents).order } := by
  refine .of_after fun before => (ensuresAfter_project h.reached idents).imp ?_
  rintro s' _ ⟨⟨hs', rfl, hnames⟩, _⟩
  have hwith : s.withGroups idents = l.toRelation.withGroups idents := by
    rw [State.withGroups, Relation.withGroups, h.groups]
  refine ⟨hs', ?_, ?_, ?_⟩
  · rw [h.read_project hnames, hwith]
    rfl
  · rw [State.project, hwith, h.groups]
    exact List.map_congr_left fun g _ => Relation.renamed_renames _ g
  · rw [State.project, State.isKept_withGroups, State.rename_withGroups, h.groups, h.order]
    rfl

/-- Only the columns of these names. -/
theorem ensures_selectNames (h : W.Reads c source s l) {names : List String}
    (hgroups : ∀ g ∈ l.groups, g ∈ names)
    (horder : ∀ key ∈ l.order, ∀ n ∈ key.columns, n ∈ names) :
    (Compiler.selectNames s names).Ensures fun s' => W.Reads c source s'
      { l with
        columns := names
        rows := l.rows.map fun row => names.map (cell l.columns row) } := by
  rw [← h.groups] at hgroups
  rw [← h.order] at horder
  have hreaches : (Compiler.selectNames s names).Ensures fun s' => Reaches c source s names s' :=
    .of_after fun before =>
      (ensuresAfter_selectNames h.reached hgroups horder).imp fun _ _ h => h.1
  have hread : (Compiler.selectNames s names).Ensures fun s' => W.read s'.level =
      { columns := names, rows := l.rows.map fun row => names.map (cell l.columns row) } := by
    refine .of_after fun before => (ensuresAfter_project h.reached _).imp ?_
    rintro s' _ ⟨⟨_, rfl, hnames⟩, _⟩
    rw [h.read_project hnames, State.withGroups_ofName hgroups, Relation.project, List.map_map]
    refine congrArg₂ RowSet.mk (List.map_id names) (List.map_congr_left fun row _ => ?_)
    exact List.map_map
  exact (hreaches.and hread).imp fun s' hs' => h.of_reaches hs'.1 hs'.2 rfl rfl

theorem ensures_rename (h : W.Reads c source s l) (hnodup : l.columns.Nodup)
    (pairs : List (String × String)) :
    (Compiler.rename s pairs).Ensures fun s' => W.Reads c source s'
      { l.toRelation.rename pairs with order := (l.heading.rename pairs).order } := by
  refine Ensures.bind (.trivial _) fun _ _ => ?_
  dsimp only
  split
  · exact .throw _
  · have hgroups : ∀ g ∈ l.groups, g ∈ l.columns := by
      rw [← h.groups, ← h.columns]
      exact h.reached.isClosed.groups
    have horder : ∀ key ∈ l.order, ∀ n ∈ key.columns, n ∈ l.columns := by
      rw [← h.order, ← h.columns]
      exact h.reached.isClosed.order
    have hrename :=
      l.toRelation.select_renamedIdents hnodup (fun _ => h.length_of_mem) hgroups pairs
    have hheading := Heading.select_renamedIdents (h := l.heading) hgroups horder pairs
    rw [← hrename, ← hheading, h.columns]
    exact ensures_select h _

/-! ## Summaries -/

theorem isWindowless_of_isCompiled {item : Item} (h : item.IsCompiled c) : item.IsWindowless := by
  intro f hvalue
  rw [Item.IsCompiled, hvalue] at h
  exact h.window

theorem readBody_of_isCompiled {b : Body} (h : b.IsCompiled c) (left : List Env) (t : RowSet) :
    W.readBody b left (t.envs.map fun row _ => row) = W.toSemantics.readBody b t := by
  rw [readBody_of_isWindowless fun item hitem => isWindowless_of_isCompiled (h.items item hitem)]
  exact Reading.readBody_of_isCompiled h left t

/-- Grouping a level that only selects and filters columns gives the summary of its rows. -/
theorem readBody_summary {b : Body} (hb : b.IsSelection c) {groups : List String}
    {assignments : List (String × Expr)} {computed : List Item}
    (hgroups : ∀ g ∈ groups, g ∈ b.outputs)
    (hassignments : ∀ a ∈ assignments, ∀ n ∈ a.2.columns, n ∈ b.outputs)
    (hcomputed : List.Forall₂ (Item.Computes c) assignments computed) (left : List Env)
    (t : RowSet) :
    W.readBody (b.summary groups computed) left (t.envs.map fun row _ => row) =
      (W.toSemantics.summarise
        { W.readBody b left (t.envs.map fun row _ => row) with groups } assignments).toRowSet := by
  have hsummary := W.toSemantics.readBody_summary hb.aggregated hb.canReference hgroups
    hassignments hcomputed t
  rw [readBody_of_isCompiled (hb.compiled.summary groups hcomputed),
    readBody_of_isCompiled hb.compiled]
  exact hsummary

theorem isPlain_wrap (level : Level) (name : String) : (level.wrap name).isPlain = true := by
  simp [Level.isPlain, Level.wrap, Level.body, Level.isJoin, Body.identity]

theorem ensures_summaryItem (c : Compiler) (a : String × Expr) :
    (c.summaryItem a.1 a.2).Ensures (Item.Computes c a) :=
  (ensures_compiling c a.2).bind fun _ hsql => .pure ⟨_, hsql, rfl, rfl⟩

/-- A chain is summarised in a level that only selects and filters columns, which is the last one or
is put on top of it. -/
theorem ensures_summary (hs : Reached c source s) {Q : Level → Prop} (hkept : Q s.level)
    (hwrapped : ∀ name, Q (s.level.wrap name)) (assignments : List (String × Expr)) :
    (c.summarise s assignments).Ensures fun s' => ∃ s₁ computed,
      Reaches c source s s.columns s₁ ∧
      (s₁.level.body.IsSelection c ∧ s₁.level.isJoin = false ∧ Q s₁.level) ∧
      ((∀ a ∈ assignments, ∀ n ∈ a.2.columns, n ∈ s₁.level.body.outputs) ∧
        List.Forall₂ (Item.Computes c) assignments computed) ∧
      s'.level = s₁.level.withBody (s₁.level.body.summary s.groups computed) := by
  refine Ensures.bind (.lift fun _ hcheck => hcheck) fun _ hcheck => ?_
  have hassignments := Compiler.mem_of_checkAssignments hcheck
  have hwrap : (s.wrapIf (!s.level.isPlain)).Ensures fun s₁ =>
      Reaches c source s s.columns s₁ ∧ s₁.level.isPlain = true ∧ Q s₁.level :=
    .of_after fun before => (ensuresAfter_wrapIf hs
      (Q := fun level => level.isPlain = true ∧ Q level)
      (fun hplain => ⟨by simpa using hplain, hkept⟩) fun name => ⟨isPlain_wrap s.level name, hwrapped name⟩).imp fun _ _ h => h.1
  refine hwrap.bind ?_
  rintro s₁ ⟨h₁, hplain, hQ⟩
  refine (Ensures.mapM fun a _ => ensures_summaryItem c a).bind fun computed hcomputed => .pure ?_
  obtain ⟨hselection, hjoin⟩ := h₁.reached.isSelection hplain
  have hcolumns : s₁.level.body.outputs = s.columns := h₁.columns
  refine ⟨s₁, computed, h₁, ⟨hselection, hjoin, hQ⟩, ⟨hcolumns ▸ hassignments, hcomputed⟩, ?_⟩
  rw [← h₁.groups]
  rfl

theorem ensures_summarise (h : W.Reads c source s l) (hnodup : l.columns.Nodup)
    (assignments : List (String × Expr)) :
    (c.summarise s assignments).Ensures fun s' => W.Reads c source s'
      { W.toSemantics.summarise l.toRelation assignments with order := [] } := by
  have hreaches : (c.summarise s assignments).Ensures fun s' =>
      Reached c source s' ∧ s'.groups = [] ∧ s'.order = [] :=
    .of_after fun before =>
      (ensuresAfter_summarise h.reached assignments).imp fun _ _ h => ⟨h.1.1, h.1.2.2⟩
  have houtputs : s.level.outputs.Nodup := by
    have hcolumns : s.level.outputs = l.columns := h.columns
    rwa [hcolumns]
  have hread : (c.summarise s assignments).Ensures fun s' =>
      W.read s'.level = (W.toSemantics.summarise l.toRelation assignments).toRowSet := by
    refine (ensures_summary h.reached (Q := fun level => W.read level = l.toRowSet) h.level
      (fun name => by rw [read_wrap houtputs, h.level]) assignments).imp ?_
    rintro s' ⟨s₁, computed, hreaches, ⟨hselection, hjoin, hlevel⟩, ⟨hassignments, hcomputed⟩, hs'⟩
    have h₁ : W.Reads c source s₁ l := h.of_reaches hreaches hlevel rfl rfl
    obtain ⟨left, rows, hrows, hread, hfrom⟩ := h₁.exists_from
    obtain ⟨t, rfl⟩ := hfrom hjoin
    have hsummary := readBody_summary (W := W) hselection h₁.reached.isClosed.groups hassignments
      hcomputed left t
    rw [← hrows, h₁.groups] at hsummary
    rw [hs', hread _ (by rfl), h.groups]
    exact hsummary
  refine (hreaches.and hread).imp ?_
  rintro s' ⟨⟨hs', hgroups, horder⟩, hlevel⟩
  exact ⟨hs', hlevel, hgroups, horder⟩

/-! ## Groupings and orderings -/

theorem ensures_groupBy (h : W.Reads c source s l) (keys : List String) (add : Bool) :
    (liftM (Compiler.groupBy s keys add) : BuildM State).Ensures fun s' =>
      W.Reads c source s' { l.toRelation.groupBy keys add with order := l.order } := by
  refine .of_after fun before => (EnsuresAfter.lift _).imp ?_
  rintro s' _ ⟨hs', _⟩
  obtain ⟨⟨⟩, hcheck, hs'⟩ := exists_of_bind_eq_ok hs'
  cases hs'
  refine ⟨h.reached.move (.regroup fun g hg => ?_), h.level, ?_, h.order⟩
  · rcases Semantics.mem_of_mem_addNew hg with hg | hg
    · cases add with
      | false => cases hg
      | true => exact h.reached.isClosed.groups g hg
    · exact State.mem_of_checkNames hcheck g hg
  · rw [Relation.groupBy, h.groups]

theorem ensures_arrange (h : W.Reads c source s l) (keys : List Expr) :
    (liftM (Compiler.arrange s keys) : BuildM State).Ensures fun s' =>
      W.Reads c source s' { l with order := keys } := by
  refine .of_after fun before => (EnsuresAfter.lift _).imp ?_
  rintro s' _ ⟨hs', _⟩
  obtain ⟨⟨⟩, hcheck, hs'⟩ := exists_of_bind_eq_ok hs'
  cases hs'
  exact ⟨h.reached.move (.arrange (mem_of_forM_checkReferences hcheck)), h.level, h.groups, rfl⟩

end Windows

end SqlChain
