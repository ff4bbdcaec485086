import SqlChain.Proofs.Chain.Extraction
import SqlChain.Proofs.Chain.Heading
import SqlChain.Proofs.Chain.Scope
import SqlChain.Proofs.Meaning.Chain

/-!
# The course of an operation

Operations make moves only. Whichever of them they make, and whether they write windows or not, they
come to the columns, the grouping and the ordering that they are meant to.
-/

namespace SqlChain

variable {c : Compiler} {source : Source} {s : State} {before : List Warning}

/-- A state that differs from `s` in its columns and its level. -/
structure Reaches (c : Compiler) (source : Source) (s : State) (columns : List String)
    (s' : State) : Prop where
  reached : Reached c source s'
  columns : s'.columns = columns
  groups : s'.groups = s.groups
  order : s'.order = s.order

/-- A state that has the columns of `s` and those of these names, and perhaps others. -/
structure Gains (c : Compiler) (source : Source) (s : State) (names : List String)
    (s' : State) : Prop where
  reached : Reached c source s'
  columns : ∀ n ∈ s.columns ++ names, n ∈ s'.columns
  groups : s'.groups = s.groups
  order : s'.order = s.order

namespace State

theorem any_ofName (names : List String) (n : String) :
    (names.map Ident.ofName).any (·.name == n) = names.contains n := by
  rw [List.any_map, List.contains_eq_any_beq]
  exact congrArg names.any (funext fun m => Bool.beq_comm)

/-- A selection of names that has the grouping columns is not added to. -/
theorem withGroups_ofName {names : List String} (h : ∀ g ∈ s.groups, g ∈ names) :
    s.withGroups (names.map Ident.ofName) = names.map Ident.ofName := by
  have hnone : (s.groups.filter fun g => !(names.map Ident.ofName).any (·.name == g)) = [] := by
    rw [List.filter_eq_nil_iff]
    intro g hg
    rw [any_ofName]
    simpa using h g hg
  rw [withGroups, hnone]
  rfl

end State

namespace BuildM

/-! ## Moves without windows -/

theorem ensuresAfter_wrapIf (hs : Reached c source s) {condition : Bool} {Q : Level → Prop}
    (hkept : condition = false → Q s.level) (hwrapped : ∀ name, Q (s.level.wrap name)) :
    (s.wrapIf condition).EnsuresAfter before fun s' w =>
      (Reaches c source s s.columns s' ∧ Q s'.level) ∧ w = before := by
  rw [State.wrapIf]
  split
  · refine .bind_nextSubquery fun name => .pure ⟨⟨⟨hs.move (.wrap s name), ?_, rfl, rfl⟩, ?_⟩, rfl⟩
    · exact State.columns_wrap name
    · exact hwrapped name
  · next hcondition =>
      exact .pure ⟨⟨⟨hs, rfl, rfl, rfl⟩, hkept (by simpa using hcondition)⟩, rfl⟩

theorem ensuresAfter_filterRows (hs : Reached c source s) {e : Expr}
    (he : ∀ n ∈ e.columns, n ∈ s.columns) :
    (c.filterRows s e).EnsuresAfter before fun s' w =>
      Reaches c source s s.columns s' ∧ w = before := by
  refine (ensuresAfter_wrapIf hs (Q := fun level =>
    ((level.body.aggregated = false ∧ level.body.windowed = false) ∧ level.isJoin = false) ∧
      level.body.canReference e.columns = true) ?_ ?_).bind ?_
  · intro hcondition
    simpa using hcondition
  · exact fun name => ⟨⟨⟨rfl, rfl⟩, rfl⟩, Body.canReference_identity he⟩
  · rintro s' _ ⟨⟨hs', ⟨⟨haggregated, hwindowed⟩, hjoin⟩, href⟩, rfl⟩
    refine (ensuresAfter_compile c .scalar rfl e).bind ?_
    rintro sql _ ⟨hsql, rfl⟩
    refine .pure ⟨⟨hs'.reached.move (.restrict haggregated hwindowed hjoin ?_ rfl hsql), ?_,
      hs'.groups, hs'.order⟩, rfl⟩
    · simpa [Fragment.columns] using href
    · rw [State.columns_withBody, ← hs'.columns]
      rfl

theorem ensuresAfter_assign (hs : Reached c source s) (windowed : Bool) (name : String) {e : Expr}
    (he : ∀ n ∈ e.columns, n ∈ s.columns) :
    (c.assign s windowed name e).EnsuresAfter before fun s' w =>
      Reaches c source s (withName s.columns name) s' ∧ w = before := by
  have hused : ∀ n ∈ e.columns ++ (if windowed then s.groups ++ s.order.flatMap Expr.columns else []),
      n ∈ s.columns := by
    refine List.forall_mem_append.2 ⟨he, fun n hn => ?_⟩
    split at hn
    · rcases List.mem_append.1 hn with hn | hn
      · exact hs.isClosed.groups n hn
      · obtain ⟨key, hkey, hn⟩ := List.mem_flatMap.1 hn
        exact hs.isClosed.order key hkey n hn
    · cases hn
  refine (ensuresAfter_wrapIf hs (Q := fun level =>
    (level.body.aggregated = false ∧ level.isJoin = false) ∧
      level.body.canReference (e.columns ++
        if windowed then s.groups ++ s.order.flatMap Expr.columns else []) = true) ?_ ?_).bind ?_
  · intro hcondition
    simpa using hcondition
  · exact fun name => ⟨⟨rfl, rfl⟩, Body.canReference_identity hused⟩
  · rintro s' _ ⟨⟨hs', ⟨haggregated, hjoin⟩, href⟩, rfl⟩
    rw [← hs'.groups, ← hs'.order] at href
    refine (ensuresAfter_compile c _ (by split <;> rfl) e).bind ?_
    rintro sql _ ⟨hsql, rfl⟩
    have hmove : ∀ f : Fragment, f.IsSpelled c → f.expr = e → (f.window =
        (if windowed then Context.windowed s'.groups s'.order else .scalar).window) →
        Move c s'
          { s' with
            level := s'.level.withBody
              { s'.level.body.setItem { name, value := .computed f } with
                windowed := s'.level.body.windowed || windowed } } := by
      rintro f hspelled rfl hwindow
      have hwindowed : f.window.isSome = windowed := by
        rw [hwindow]
        cases windowed <;> rfl
      rw [← hwindowed]
      refine .compute name haggregated hjoin ?_ ?_ hspelled
      · rw [Fragment.columns, hwindow]
        cases windowed
        · exact href
        · simpa [Context.windowed] using href
      · rw [hwindow]
        cases windowed
        · rintro _ ⟨⟩
        · rintro _ ⟨⟩
          rfl
    refine .pure ⟨⟨hs'.reached.move (hmove _ hsql rfl rfl), ?_, hs'.groups, hs'.order⟩, rfl⟩
    rw [State.columns_setItem, hs'.columns]

/-! ## Columns for window calls -/

theorem ensuresAfter_emulateAll_gains (hs : Reached c source s) {calls : List ExtractedCall}
    (hcalls : ∀ x ∈ calls, ∀ n ∈ x.call.columns, n ∈ s.columns) :
    (c.emulateAll s calls).EnsuresAfter before fun s' w =>
      Gains c source s (calls.map (·.temporary)) s' ∧ w = before := by
  refine (ensuresAfter_emulateAll s calls).imp ?_
  rintro s' _ ⟨hemulation, rfl⟩
  obtain ⟨added, hcolumns, hperm⟩ := hemulation.columns
  refine ⟨⟨hs.move (.emulate hcalls hemulation), ?_, ?_, ?_⟩, rfl⟩
  · rw [hcolumns]
    exact fun n hn => ((hperm.append_left s.columns).mem_iff).2 hn
  · cases hemulation <;> rfl
  · cases hemulation <;> rfl

theorem ensuresAfter_assigns (hs : Reached c source s) (calls : List ExtractedCall)
    (hcalls : ∀ x ∈ calls, ∀ n ∈ x.call.columns, n ∈ s.columns) :
    (calls.foldlM (fun s x => c.assign s true x.temporary x.call) s).EnsuresAfter before fun s' w =>
      Gains c source s (calls.map (·.temporary)) s' ∧ w = before := by
  induction calls generalizing s with
  | nil => exact .pure ⟨⟨hs, by simp, rfl, rfl⟩, rfl⟩
  | cons x rest ih =>
      rw [List.foldlM_cons]
      refine (ensuresAfter_assign hs true x.temporary (hcalls x (by simp))).bind ?_
      rintro s₁ _ ⟨h₁, rfl⟩
      have hmono : ∀ n ∈ s.columns, n ∈ s₁.columns := by
        rw [h₁.columns]
        exact fun n hn => mem_withName hn x.temporary
      refine (ih h₁.reached fun y hy n hn => hmono n (hcalls y (by simp [hy]) n hn)).imp ?_
      rintro s₂ _ ⟨h₂, rfl⟩
      refine ⟨⟨h₂.reached, ?_, h₂.groups.trans h₁.groups, h₂.order.trans h₁.order⟩, rfl⟩
      intro n hn
      refine h₂.columns n ?_
      rcases List.mem_append.1 hn with hn | hn
      · exact List.mem_append_left _ (hmono n hn)
      · rcases List.mem_cons.1 hn with rfl | hn
        · refine List.mem_append_left _ ?_
          rw [h₁.columns]
          exact self_mem_withName s.columns x.temporary
        · exact List.mem_append_right _ hn

/-- With windows, calls that need a join come before those that are written over a window. -/
theorem materialise_eq (hwindows : c.hasWindows = true) (s : State) (calls : List ExtractedCall) :
    c.materialise s calls =
      (if (calls.filter fun x => c.needsJoin x.call).isEmpty then pure s
        else c.emulateAll s (calls.filter fun x => c.needsJoin x.call)) >>= fun s =>
      (calls.filter fun x => !c.needsJoin x.call).foldlM
        (fun s x => c.assign s true x.temporary x.call) s := by
  rw [Compiler.materialise, hwindows, List.partition_eq_filter_filter]
  dsimp only
  rw [Bool.not_true, if_neg Bool.false_ne_true]
  split <;> rfl

theorem ensuresAfter_joined (hs : Reached c source s) {joined : List ExtractedCall}
    (hcalls : ∀ x ∈ joined, ∀ n ∈ x.call.columns, n ∈ s.columns) :
    (if joined.isEmpty then pure s else c.emulateAll s joined : BuildM State).EnsuresAfter before
      fun s' w => Gains c source s (joined.map (·.temporary)) s' ∧ w = before := by
  split
  · next hnone =>
      refine .pure ⟨⟨hs, ?_, rfl, rfl⟩, rfl⟩
      simp [List.isEmpty_iff.1 hnone]
  · exact ensuresAfter_emulateAll_gains hs hcalls

theorem ensuresAfter_materialise (hs : Reached c source s) {calls : List ExtractedCall}
    (hcalls : ∀ x ∈ calls, ∀ n ∈ x.call.columns, n ∈ s.columns) :
    (c.materialise s calls).EnsuresAfter before fun s' w =>
      Gains c source s (calls.map (·.temporary)) s' ∧ w = before := by
  by_cases hwindows : c.hasWindows = true
  · rw [materialise_eq hwindows]
    refine (ensuresAfter_joined hs fun x hx => hcalls x (List.mem_filter.1 hx).1).bind ?_
    rintro s₁ _ ⟨h₁, rfl⟩
    refine (ensuresAfter_assigns h₁.reached _ fun x hx n hn => ?_).imp ?_
    · exact h₁.columns n (List.mem_append_left _ (hcalls x (List.mem_filter.1 hx).1 n hn))
    · rintro s₂ _ ⟨h₂, rfl⟩
      refine ⟨⟨h₂.reached, ?_, h₂.groups.trans h₁.groups, h₂.order.trans h₁.order⟩, rfl⟩
      intro n hn
      rcases List.mem_append.1 hn with hn | hn
      · exact h₂.columns n (List.mem_append_left _ (h₁.columns n (List.mem_append_left _ hn)))
      · obtain ⟨x, hx, rfl⟩ := List.mem_map.1 hn
        cases hjoin : c.needsJoin x.call with
        | true =>
            refine h₂.columns _ (List.mem_append_left _ (h₁.columns _ (List.mem_append_right _ ?_)))
            exact List.mem_map_of_mem (List.mem_filter.2 ⟨hx, hjoin⟩)
        | false =>
            refine h₂.columns _ (List.mem_append_right _ (List.mem_map_of_mem ?_))
            exact List.mem_filter.2 ⟨hx, by simp [hjoin]⟩
  · rw [Compiler.materialise, if_pos (by simpa using hwindows)]
    exact ensuresAfter_emulateAll_gains hs hcalls

/-! ## Selections -/

theorem ensuresAfter_project (hs : Reached c source s) (idents : List Ident) :
    (s.select idents).EnsuresAfter before fun s' w =>
      (Reached c source s' ∧ s' = s.project (s.withGroups idents) ∧
        ∀ i ∈ s.withGroups idents, i.name ∈ s.columns) ∧
      w = before ++ s.dropped (s.withGroups idents) := by
  refine (EnsuresAfter.lift _).bind ?_
  rintro _ _ ⟨hcheck, rfl⟩
  refine .bind_drop (.pure ⟨?_, rfl⟩)
  have hidents := State.mem_of_checkNames hcheck
  have hnames : ∀ i ∈ s.withGroups idents, i.name ∈ s.columns := by
    intro i hi
    rcases List.mem_append.1 hi with hi | hi
    · obtain ⟨group, hgroup, rfl⟩ := List.mem_map.1 hi
      exact hs.isClosed.groups group (List.mem_filter.1 hgroup).1
    · exact hidents i.name (List.mem_map_of_mem hi)
  have hgroups : ∀ g ∈ s.groups, ∃ i ∈ s.withGroups idents, i.name = g := by
    intro g hg
    have hany : (s.withGroups idents).any (·.name == g) = true := by
      rw [State.any_withGroups, List.contains_iff_mem.2 hg, Bool.true_or]
    obtain ⟨i, hi, hname⟩ := List.any_eq_true.1 hany
    exact ⟨i, hi, by simpa using hname⟩
  exact ⟨hs.move (.project hnames hgroups), rfl, hnames⟩

theorem ensuresAfter_select (hs : Reached c source s) {h : Heading} (hfollows : s.Follows before h)
    (idents : List Ident) :
    (s.select idents).EnsuresAfter before fun s' w =>
      Reached c source s' ∧ s'.Follows w (h.select idents) := by
  refine (ensuresAfter_project hs idents).imp ?_
  rintro s' _ ⟨⟨hs', rfl, hnames⟩, rfl⟩
  have hcolumns := State.columns_project hnames
  have hgroups := hfollows.groups
  have horder := hfollows.order
  refine ⟨hs', ?_, ?_, ?_, ?_⟩
  · rw [hcolumns, State.withGroups, List.map_append, List.map_map, hgroups]
    exact congrArg (· ++ idents.map Ident.output) (List.map_id _)
  · rw [State.project, hgroups]
    refine List.map_congr_left fun g _ => ?_
    rw [State.renamed_withGroups]
  · rw [State.project, State.isKept_withGroups, State.rename_withGroups, hgroups, horder]
    rfl
  · rw [State.dropped, State.isKept_withGroups, hgroups, horder, hfollows.remarks,
      ← List.map_append]
    rfl

/-- A selection of columns by their names loses nothing of a grouping and an ordering that are about
these columns. -/
theorem ensuresAfter_selectNames (hs : Reached c source s) {names : List String}
    (hgroups : ∀ g ∈ s.groups, g ∈ names) (horder : ∀ key ∈ s.order, ∀ n ∈ key.columns, n ∈ names) :
    (Compiler.selectNames s names).EnsuresAfter before fun s' w =>
      Reaches c source s names s' ∧ w = before := by
  have hkept : ∀ key ∈ s.order, State.isKept (names.map Ident.ofName) key = true := by
    intro key hkey
    rw [State.isKept, List.all_eq_true]
    intro n hn
    rw [State.any_ofName, List.contains_iff_mem]
    exact horder key hkey n hn
  have hrename : ∀ name, Expr.renamed (State.renames (names.map Ident.ofName)) name = name := by
    intro name
    rw [Relation.renamed_renames, ← List.append_nil (names.map Ident.ofName),
      Relation.followed_ofName_append]
    rfl
  refine (ensuresAfter_project hs _).imp ?_
  rintro s' _ ⟨⟨hs', rfl, hnames⟩, rfl⟩
  have hcolumns := State.columns_project hnames
  rw [State.withGroups_ofName hgroups] at hs' hcolumns ⊢
  refine ⟨⟨hs', ?_, ?_, ?_⟩, ?_⟩
  · rw [hcolumns, List.map_map]
    exact List.map_id names
  · rw [State.project, funext hrename]
    exact List.map_id s.groups
  · rw [State.project, List.filter_eq_self.2 hkept]
    refine (List.map_congr_left fun key _ => ?_).trans (List.map_id s.order)
    rw [Expr.rename, funext hrename, Expr.mapColumns_id]
    rfl
  · have hnone : s.order.filter (fun key => !State.isKept (names.map Ident.ofName) key) = [] := by
      rw [List.filter_eq_nil_iff]
      intro key hkey
      simp [hkept key hkey]
    rw [State.dropped, hnone, List.map_nil, List.append_nil]

/-! ## Predicates and assignments -/

theorem ensuresAfter_checkReferences (e : Expr) :
    (liftM (s.checkReferences e) : BuildM Unit).EnsuresAfter before fun _ w =>
      (∀ n ∈ e.columns, n ∈ s.columns) ∧ w = before := by
  refine (EnsuresAfter.lift _).imp ?_
  rintro _ _ ⟨hcheck, rfl⟩
  exact ⟨State.mem_of_checkNames hcheck, rfl⟩

theorem ensuresAfter_extracting (p : String → Nat → Bool → Bool) (e : Expr) :
    (extracting p e).EnsuresAfter before fun taken w =>
      ((∀ x ∈ taken.2, ∀ n ∈ x.call.columns, n ∈ e.columns) ∧
        ∀ n ∈ taken.1.columns, n ∈ e.columns ∨ n ∈ taken.2.map (·.temporary)) ∧ w = before := by
  rintro progress taken later rfl hrun
  obtain ⟨calls, hafter, _, hcalls, hrest⟩ :=
    Expr.takes_extract p e { issued := progress.temporaries, calls := [] }
  have htaken : ((e.extract p).run { issued := progress.temporaries, calls := [] }).2.calls = calls :=
    congrArg Extraction.calls hafter
  cases hrun
  refine ⟨⟨?_, ?_⟩, rfl⟩
  · exact htaken ▸ fun x hx => (hcalls x hx).2
  · exact htaken ▸ hrest

/-- Add a column for every window call of an expression, which leaves what remains of it. -/
def placing (c : Compiler) (s : State) (e : Expr) : BuildM (Expr × State) := do
  let (rest, calls) ← extracting c.isWindowCall e
  return (rest, ← c.materialise s calls)

theorem filter_eq (c : Compiler) (s : State) (e : Expr) :
    c.filter s e = (do
      s.checkReferences e
      if c.needsWindow e then
        let (rest, s₁) ← placing c s e
        let filtered ← c.filterRows s₁ rest
        Compiler.selectNames filtered s.columns
      else c.filterRows s e) := by
  simp only [Compiler.filter, placing, bind_assoc, pure_bind]

theorem mutate_eq (c : Compiler) (s : State) (name : String) (e : Expr) :
    c.mutate s name e = (do
      s.checkReferences e
      if !c.needsWindow e then c.assign s false name e
      else if c.hasWindows && !c.needsJoin e then c.assign s true name e
      else
        let (rest, s₁) ← placing c s e
        let assigned ← c.assign s₁ false name rest
        Compiler.selectNames assigned (withName s.columns name)) := by
  simp only [Compiler.mutate, placing, bind_assoc, pure_bind, withName, List.contains_iff_mem]

/-- What remains of an expression refers to columns that are there. -/
theorem ensuresAfter_placing (hs : Reached c source s) {e : Expr}
    (he : ∀ n ∈ e.columns, n ∈ s.columns) :
    (placing c s e).EnsuresAfter before fun placed w =>
      ((∃ names, Gains c source s names placed.2) ∧
        ∀ n ∈ placed.1.columns, n ∈ placed.2.columns) ∧ w = before := by
  refine (ensuresAfter_extracting c.isWindowCall e).bind ?_
  rintro ⟨rest, calls⟩ _ ⟨⟨hcalls, hrest⟩, rfl⟩
  refine (ensuresAfter_materialise hs fun x hx n hn => he n (hcalls x hx n hn)).bind ?_
  rintro s₁ _ ⟨h₁, rfl⟩
  refine .pure ⟨⟨⟨_, h₁⟩, fun n hn => ?_⟩, rfl⟩
  exact h₁.columns n (List.mem_append.2 ((hrest n hn).imp_left (he n)))

/-- The columns that were added for window calls are dropped again. -/
theorem ensuresAfter_dropping (hs : Reached c source s) {s₁ s₂ : State}
    {added columns kept : List String} (h₁ : Gains c source s added s₁)
    (h₂ : Reaches c source s₁ columns s₂) (hkept : ∀ n ∈ s.columns, n ∈ kept) :
    (Compiler.selectNames s₂ kept).EnsuresAfter before fun s' w =>
      Reaches c source s kept s' ∧ w = before := by
  have hgroups := h₂.groups.trans h₁.groups
  have horder := h₂.order.trans h₁.order
  refine (ensuresAfter_selectNames h₂.reached ?_ ?_).imp ?_
  · rw [hgroups]
    exact fun g hg => hkept g (hs.isClosed.groups g hg)
  · rw [horder]
    exact fun key hkey n hn => hkept n (hs.isClosed.order key hkey n hn)
  · rintro s' _ ⟨h', rfl⟩
    exact ⟨⟨h'.reached, h'.columns, h'.groups.trans hgroups, h'.order.trans horder⟩, rfl⟩

theorem ensuresAfter_filter (hs : Reached c source s) (e : Expr) :
    (c.filter s e).EnsuresAfter before fun s' w =>
      Reaches c source s s.columns s' ∧ w = before := by
  rw [filter_eq]
  refine (ensuresAfter_checkReferences e).bind ?_
  rintro _ _ ⟨he, rfl⟩
  split
  · refine (ensuresAfter_placing hs he).bind ?_
    rintro ⟨rest, s₁⟩ _ ⟨⟨⟨added, h₁⟩, hrest⟩, rfl⟩
    refine (ensuresAfter_filterRows h₁.reached hrest).bind ?_
    rintro s₂ _ ⟨h₂, rfl⟩
    exact ensuresAfter_dropping hs h₁ h₂ fun n hn => hn
  · exact ensuresAfter_filterRows hs he

theorem ensuresAfter_mutate (hs : Reached c source s) (name : String) (e : Expr) :
    (c.mutate s name e).EnsuresAfter before fun s' w =>
      Reaches c source s (withName s.columns name) s' ∧ w = before := by
  rw [mutate_eq]
  refine (ensuresAfter_checkReferences e).bind ?_
  rintro _ _ ⟨he, rfl⟩
  split
  · exact ensuresAfter_assign hs false name he
  split
  · exact ensuresAfter_assign hs true name he
  refine (ensuresAfter_placing hs he).bind ?_
  rintro ⟨rest, s₁⟩ _ ⟨⟨⟨added, h₁⟩, hrest⟩, rfl⟩
  refine (ensuresAfter_assign h₁.reached false name hrest).bind ?_
  rintro s₂ _ ⟨h₂, rfl⟩
  exact ensuresAfter_dropping hs h₁ h₂ fun n hn => mem_withName hn name

/-! ## Summaries -/

theorem ensuresAfter_summaryItem (name : String) {e : Expr} {columns : List String}
    (he : ∀ n ∈ e.columns, n ∈ columns) :
    (c.summaryItem name e).EnsuresAfter before fun item w =>
      (item.name = name ∧ ∃ f : Fragment, item.value = .computed f ∧ f.window = none ∧
        f.IsSpelled c ∧ ∀ n ∈ f.columns, n ∈ columns) ∧ w = before := by
  refine (ensuresAfter_compile c .scalar rfl e).bind ?_
  rintro sql _ ⟨hsql, rfl⟩
  refine .pure ⟨⟨rfl, _, rfl, rfl, hsql, ?_⟩, rfl⟩
  simpa [Fragment.columns, Context.scalar] using he

theorem ensuresAfter_summarise (hs : Reached c source s) (assignments : List (String × Expr)) :
    (c.summarise s assignments).EnsuresAfter before fun s' w =>
      (Reached c source s' ∧ s'.columns = s.groups ++ assignments.map Prod.fst ∧
        s'.groups = [] ∧ s'.order = []) ∧ w = before := by
  refine (EnsuresAfter.lift _).bind ?_
  rintro _ _ ⟨hcheck, rfl⟩
  have hassignments := Compiler.mem_of_checkAssignments hcheck
  refine (ensuresAfter_wrapIf hs (Q := fun level => level.isPlain = true) ?_ ?_).bind ?_
  · exact fun hplain => by simpa using hplain
  · intro name
    simp [Level.isPlain, Level.wrap, Level.body, Level.isJoin, Body.identity]
  rintro s₁ _ ⟨⟨h₁, hplain⟩, rfl⟩
  refine (EnsuresAfter.mapM fun a ha => ensuresAfter_summaryItem a.1 (hassignments a ha)).bind ?_
  rintro computed _ ⟨hcomputed, rfl⟩
  have hitems := forall_of_forall₂ (hcomputed.imp fun _ _ h => h.2)
  have hnames : assignments.map Prod.fst = computed.map (·.name) := by
    rw [← List.forall₂_eq_eq_eq, List.forall₂_map_left_iff, List.forall₂_map_right_iff]
    exact hcomputed.imp fun _ _ h => h.1.symm
  rw [← h₁.columns] at hitems
  refine .pure ⟨⟨h₁.reached.move (.summarise hplain hitems), ?_, rfl, rfl⟩, rfl⟩
  rw [State.columns_withBody, Body.outputs, List.map_append, List.map_map, ← hnames, h₁.groups]
  exact congrArg (· ++ assignments.map Prod.fst) (List.map_id s.groups)

end BuildM

end SqlChain
