import SqlChain.Proofs.Chain.Names
import SqlChain.Proofs.Chain.Remainder
import SqlChain.Proofs.Chain.Statement

/-!
# Names in every level

A chain whose table has columns with different names keeps its names apart, as long as no operation
asks for a name twice by itself. Within a statement, columns for window calls that are joined get
names of their own, which nothing keeps apart from those of a table.
-/

namespace SqlChain

variable {c : Compiler} {source : Source} {s : State} {h : Heading} {before : List Warning}

/-! ## Levels -/

namespace Level

/-- In the level and in every level within it, no two columns have the same name. -/
def IsDistinct (level : Level) : Prop := ∀ inner ∈ level.nest, inner.outputs.Nodup

namespace IsDistinct

variable {level : Level}

theorem outputs (h : level.IsDistinct) : level.outputs.Nodup := h level level.mem_nest

theorem wrap (h : level.IsDistinct) (name : String) : (level.wrap name).IsDistinct := by
  refine List.forall_mem_cons.2 ⟨?_, h⟩
  have houtputs := h.outputs
  rwa [← outputs_wrap level name] at houtputs

theorem withBody (h : level.IsDistinct) {b : Body} (hb : b.outputs.Nodup) :
    (level.withBody b).IsDistinct := by
  intro inner hinner
  rcases mem_nest_withBody hinner with rfl | hinner
  · rwa [Level.outputs, body_withBody]
  · exact h inner hinner

theorem setItem (h : level.IsDistinct) (item : Item) (windowed : Bool) :
    (level.withBody { level.body.setItem item with windowed }).IsDistinct := by
  refine h.withBody ?_
  have hnames := nodup_withName h.outputs item.name
  rwa [Level.outputs, ← Body.outputs_setItem] at hnames

end IsDistinct

theorem isDistinct_ofSource {source : Source} (h : source.columns.Nodup) :
    (ofSource source).IsDistinct := by
  intro inner hinner
  cases List.mem_singleton.1 hinner
  simpa [outputs, body] using h

end Level

/-- Columns for calls keep the names apart where those of the level are not temporary. -/
theorem IsEmulation.isDistinct {s' : State} {calls : List ExtractedCall}
    (h : IsEmulation c s calls s') (hlevel : s.level.IsDistinct) (hgroups : s.groups.Nodup)
    (hclosed : ∀ g ∈ s.groups, g ∈ s.columns) (hcalls : (calls.map (·.temporary)).Nodup)
    (hnew : ∀ n ∈ calls.map (·.temporary), n ∉ s.columns) : s'.level.IsDistinct := by
  have htop : s'.columns.Nodup := by
    obtain ⟨added, hcolumns, hperm⟩ := h.columns
    rw [hcolumns]
    refine List.nodup_append.2 ⟨hlevel.outputs, hperm.nodup_iff.2 hcalls, ?_⟩
    rintro n hn _ hadded rfl
    exact hnew n (hperm.mem_iff.1 hadded) hn
  cases h with
  | ranks => exact List.forall_mem_cons.2 ⟨htop, hlevel⟩
  | joined _ hemulated =>
      have hperm := perm_temporaries hemulated
      refine List.forall_mem_cons.2 ⟨htop, List.forall_mem_append.2 ⟨hlevel, ?_⟩⟩
      refine List.forall_mem_cons.2 ⟨?_, hlevel⟩
      have hgroupItems : (s.groups.map Item.column).map (·.name) = s.groups := by
        rw [List.map_map]
        exact List.map_id s.groups
      rw [Level.outputs, Level.body, Body.outputs, Body.summary, List.map_append, hgroupItems]
      refine List.nodup_append.2 ⟨hgroups, (hperm.nodup_iff.2 hcalls).of_append_left, ?_⟩
      rintro g hg _ hn rfl
      exact hnew g (hperm.mem_iff.1 (List.mem_append_left _ hn)) (hclosed g hg)

namespace Compiler

/-- Whether a predicate or a value needs columns of a join. -/
def joins (c : Compiler) (e : Expr) : Bool := c.needsWindow e && !(c.hasWindows && !c.needsJoin e)

end Compiler

namespace Op

/-- The expressions that are evaluated row by row. -/
def rowwise : Op → List Expr
  | .filter predicates => predicates
  | .mutate assignments => assignments.map Prod.snd
  | _ => []

/-- The columns that are assigned to the rows. -/
def assigned : Op → List String
  | .mutate assignments => assignments.map Prod.fst
  | _ => []

end Op

/-- Whether columns of a join may get the name of a column that is there. -/
def Heading.Clashes (h : Heading) (c : Compiler) (op : Op) : Prop :=
  (∃ e ∈ op.rowwise, c.joins e = true) ∧ ∃ n, temporaryName n ∈ h.columns ++ op.assigned

namespace BuildM

theorem ensuresAfter_wrapIf_isDistinct (hlevel : s.level.IsDistinct) (condition : Bool) :
    (s.wrapIf condition).EnsuresAfter before fun s' _ => s'.level.IsDistinct := by
  rw [State.wrapIf]
  split
  · exact .bind_nextSubquery fun name => .pure (hlevel.wrap name)
  · exact .pure hlevel

theorem ensuresAfter_filterRows_isDistinct (hlevel : s.level.IsDistinct) (e : Expr) :
    (c.filterRows s e).EnsuresAfter before fun s' _ => s'.level.IsDistinct := by
  refine (ensuresAfter_wrapIf_isDistinct hlevel _).bind fun s' _ hs' => ?_
  refine (EnsuresAfter.compiling _).bind fun sql _ _ => .pure (hs'.withBody ?_)
  exact hs'.outputs

theorem ensuresAfter_assign_isDistinct (hlevel : s.level.IsDistinct) (windowed : Bool)
    (name : String) (e : Expr) :
    (c.assign s windowed name e).EnsuresAfter before fun s' _ => s'.level.IsDistinct := by
  refine (ensuresAfter_wrapIf_isDistinct hlevel _).bind fun s' _ hs' => ?_
  exact (EnsuresAfter.compiling _).bind fun sql _ _ => .pure (hs'.setItem _ _)

theorem ensuresAfter_assigns_isDistinct (hlevel : s.level.IsDistinct)
    (calls : List ExtractedCall) :
    (calls.foldlM (fun s x => c.assign s true x.temporary x.call) s).EnsuresAfter before
      fun s' _ => s'.level.IsDistinct := by
  induction calls generalizing s before with
  | nil => exact .pure hlevel
  | cons x rest ih =>
      rw [List.foldlM_cons]
      exact (ensuresAfter_assign_isDistinct hlevel true x.temporary x.call).bind fun _ _ => ih

/-- What is known of the calls that are taken out of an expression. -/
structure Extracted (c : Compiler) (e : Expr) (calls : List ExtractedCall) : Prop where
  nodup : (calls.map (·.temporary)).Nodup
  temporary : ∀ x ∈ calls, ∃ n, x.temporary = temporaryName n
  needsJoin : ∀ x ∈ calls, c.needsJoin x.call = true → c.needsJoin e = true

theorem ensuresAfter_extracting_extracted (c : Compiler) (e : Expr) :
    (extracting c.isWindowCall e).EnsuresAfter before fun taken _ => Extracted c e taken.2 := by
  rintro p _ _ _ ⟨⟩
  obtain ⟨hnodup, htemporary⟩ := Expr.temporaries_extract c.isWindowCall e p.temporaries
  refine ⟨hnodup, htemporary, ?_⟩
  obtain ⟨taken, htaken, hcalls⟩ :=
    (c.divides_extract e).taken { issued := p.temporaries, calls := [] }
  rw [List.nil_append] at htaken
  intro x hx hjoin
  exact hcalls x (htaken ▸ hx) c.isJoinOnly hjoin

theorem ensuresAfter_materialise_isDistinct (hs : Reached c source s) (hlevel : s.level.IsDistinct)
    (hgroups : s.groups.Nodup) {e : Expr} {calls : List ExtractedCall}
    (hneeds : c.needsWindow e = true) (hcalls : Extracted c e calls)
    (hfresh : c.joins e = true → ∀ n, temporaryName n ∉ s.columns) :
    (c.materialise s calls).EnsuresAfter before fun s' _ => s'.level.IsDistinct := by
  have hemulate : ∀ part : List ExtractedCall, part.Sublist calls → c.joins e = true →
      (c.emulateAll s part).EnsuresAfter before fun s' _ => s'.level.IsDistinct := by
    intro part hpart hjoins
    refine (ensuresAfter_emulateAll s part).imp fun s' _ h => ?_
    refine h.1.isDistinct hlevel hgroups hs.isClosed.groups (hcalls.nodup.sublist (hpart.map _)) ?_
    rw [List.forall_mem_map]
    intro x hx
    obtain ⟨n, hn⟩ := hcalls.temporary x (hpart.subset hx)
    rw [hn]
    exact hfresh hjoins n
  by_cases hwindows : c.hasWindows = true
  · rw [materialise_eq hwindows]
    have hjoined : (if (calls.filter fun x => c.needsJoin x.call).isEmpty then pure s
        else c.emulateAll s (calls.filter fun x => c.needsJoin x.call) : BuildM State).EnsuresAfter
          before fun s' _ => s'.level.IsDistinct := by
      split
      · exact .pure hlevel
      · next hsome =>
          refine hemulate _ List.filter_sublist ?_
          obtain ⟨x, hx⟩ := List.exists_mem_of_ne_nil _ (List.isEmpty_eq_false_iff.1
            (Bool.eq_false_iff.2 hsome))
          have hneedsJoin := hcalls.needsJoin x (List.mem_filter.1 hx).1 (List.mem_filter.1 hx).2
          simp [Compiler.joins, hneeds, hneedsJoin]
    exact hjoined.bind fun _ _ hs' => ensuresAfter_assigns_isDistinct hs' _
  · rw [Compiler.materialise, if_pos (by simpa using hwindows)]
    exact hemulate calls (List.Sublist.refl _) (by simp [Compiler.joins, hneeds, hwindows])

/-- A selection leaves what is within the level as it is. -/
theorem ensuresAfter_select_isDistinct (hs : Reached c source s) (hlevel : s.level.IsDistinct)
    (idents : List Ident) :
    (s.select idents).EnsuresAfter before fun s' _ => s'.columns.Nodup → s'.level.IsDistinct := by
  refine (ensuresAfter_project hs idents).imp ?_
  rintro _ _ ⟨⟨_, rfl, _⟩, _⟩ hcolumns
  rw [State.project, State.columns_withBody] at hcolumns
  exact hlevel.withBody hcolumns

theorem ensuresAfter_placing_isDistinct (hs : Reached c source s) (hlevel : s.level.IsDistinct)
    (hgroups : s.groups.Nodup) {e : Expr} (hneeds : c.needsWindow e = true)
    (hfresh : c.joins e = true → ∀ n, temporaryName n ∉ s.columns) :
    (placing c s e).EnsuresAfter before fun placed _ => placed.2.level.IsDistinct := by
  refine (ensuresAfter_extracting_extracted c e).bind fun taken _ hcalls => ?_
  refine (ensuresAfter_materialise_isDistinct hs hlevel hgroups hneeds hcalls hfresh).bind ?_
  exact fun _ _ hlevel₁ => .pure hlevel₁

theorem ensuresAfter_filter_isDistinct (hs : Reached c source s) (hlevel : s.level.IsDistinct)
    (hgroups : s.groups.Nodup) {e : Expr}
    (hfresh : c.joins e = true → ∀ n, temporaryName n ∉ s.columns) :
    (c.filter s e).EnsuresAfter before fun s' _ => s'.level.IsDistinct := by
  rw [filter_eq]
  refine (ensuresAfter_checkReferences e).bind ?_
  rintro _ _ ⟨he, rfl⟩
  split
  · next hneeds =>
      refine ((ensuresAfter_placing hs he).and
        (ensuresAfter_placing_isDistinct hs hlevel hgroups hneeds hfresh)).bind ?_
      rintro ⟨rest, s₁⟩ _ ⟨⟨⟨⟨added, h₁⟩, hrest⟩, rfl⟩, hlevel₁⟩
      refine ((ensuresAfter_filterRows h₁.reached hrest).and
        (ensuresAfter_filterRows_isDistinct hlevel₁ rest)).bind ?_
      rintro s₂ _ ⟨⟨h₂, rfl⟩, hlevel₂⟩
      refine ((ensuresAfter_dropping hs h₁ h₂ fun n hn => hn).and
        (ensuresAfter_select_isDistinct h₂.reached hlevel₂ _)).imp ?_
      rintro s₃ _ ⟨⟨h₃, _⟩, hlevel₃⟩
      refine hlevel₃ ?_
      rw [h₃.columns]
      exact hlevel.outputs
  · exact ensuresAfter_filterRows_isDistinct hlevel e

theorem ensuresAfter_mutate_isDistinct (hs : Reached c source s) (hlevel : s.level.IsDistinct)
    (hgroups : s.groups.Nodup) (name : String) {e : Expr}
    (hfresh : c.joins e = true → ∀ n, temporaryName n ∉ s.columns) :
    (c.mutate s name e).EnsuresAfter before fun s' _ => s'.level.IsDistinct := by
  rw [mutate_eq]
  refine (ensuresAfter_checkReferences e).bind ?_
  rintro _ _ ⟨he, rfl⟩
  split
  · exact ensuresAfter_assign_isDistinct hlevel false name e
  split
  · exact ensuresAfter_assign_isDistinct hlevel true name e
  next hneeds _ =>
    refine ((ensuresAfter_placing hs he).and
      (ensuresAfter_placing_isDistinct hs hlevel hgroups (by simpa using hneeds) hfresh)).bind ?_
    rintro ⟨rest, s₁⟩ _ ⟨⟨⟨⟨added, h₁⟩, hrest⟩, rfl⟩, hlevel₁⟩
    refine ((ensuresAfter_assign h₁.reached false name hrest).and
      (ensuresAfter_assign_isDistinct hlevel₁ false name rest)).bind ?_
    rintro s₂ _ ⟨⟨h₂, rfl⟩, hlevel₂⟩
    refine ((ensuresAfter_dropping hs h₁ h₂ fun n hn => mem_withName hn name).and
      (ensuresAfter_select_isDistinct h₂.reached hlevel₂ _)).imp ?_
    rintro s₃ _ ⟨⟨h₃, _⟩, hlevel₃⟩
    refine hlevel₃ ?_
    rw [h₃.columns]
    exact nodup_withName hlevel.outputs name

theorem ensuresAfter_summarise_isDistinct (hlevel : s.level.IsDistinct)
    (assignments : List (String × Expr)) :
    (c.summarise s assignments).EnsuresAfter before fun s' _ =>
      s'.columns.Nodup → s'.level.IsDistinct := by
  refine (EnsuresAfter.lift _).bind ?_
  rintro _ _ -
  refine (ensuresAfter_wrapIf_isDistinct hlevel _).bind fun s₁ _ hlevel₁ => ?_
  refine (EnsuresAfter.trivial _).bind fun computed _ _ => .pure fun hcolumns => ?_
  rw [State.columns_withBody] at hcolumns
  exact hlevel₁.withBody hcolumns

theorem ensuresAfter_rename_isDistinct (hs : Reached c source s) (hlevel : s.level.IsDistinct)
    (pairs : List (String × String)) :
    (Compiler.rename s pairs).EnsuresAfter before fun s' _ =>
      s'.columns.Nodup → s'.level.IsDistinct := by
  refine (EnsuresAfter.lift _).bind ?_
  rintro _ _ -
  dsimp only
  split
  · exact .throw _
  · exact ensuresAfter_select_isDistinct hs hlevel _

theorem ensuresAfter_filters_isDistinct (hs : Reached c source s) (hfollows : s.Follows before h)
    (hh : h.IsDistinct) (hlevel : s.level.IsDistinct) {predicates : List Expr}
    (hclash : ¬h.Clashes c (.filter predicates)) :
    (predicates.foldlM c.filter s).EnsuresAfter before fun s' _ => s'.level.IsDistinct := by
  refine (EnsuresAfter.foldlM_foldl (g := fun h _ => h) (x := h)
    (R := fun s w h' => h' = h ∧ Reached c source s ∧ s.Follows w h ∧ s.level.IsDistinct)
    ⟨rfl, hs, hfollows, hlevel⟩ ?_).imp fun _ _ hlast => hlast.2.2.2
  rintro s₁ w h₁ ⟨rfl, hs₁, hfollows₁, hlevel₁⟩ e he
  have hgroups : s₁.groups.Nodup := hfollows₁.groups ▸ hh.groups
  refine ((ensuresAfter_filter hs₁ e).and
    (ensuresAfter_filter_isDistinct hs₁ hlevel₁ hgroups fun hjoins n hn => ?_)).imp ?_
  · rw [hfollows₁.columns] at hn
    exact hclash ⟨⟨e, he, hjoins⟩, n, List.mem_append_left _ hn⟩
  · rintro s₂ _ ⟨⟨hs₂, rfl⟩, hlevel₂⟩
    have hfollows₂ := hs₂.follows hfollows₁
    rw [hfollows₁.columns] at hfollows₂
    exact ⟨rfl, hs₂.reached, hfollows₂, hlevel₂⟩

theorem ensuresAfter_mutates_isDistinct (hs : Reached c source s) (hfollows : s.Follows before h)
    (hh : h.IsDistinct) (hlevel : s.level.IsDistinct) {assignments : List (String × Expr)}
    (hclash : ¬h.Clashes c (.mutate assignments)) :
    (assignments.foldlM (fun s a => c.mutate s a.1 a.2) s).EnsuresAfter before fun s' _ =>
      s'.level.IsDistinct := by
  refine (EnsuresAfter.foldlM_foldl (g := fun h a => h.assign a.1) (x := h)
    (R := fun s w h' => h'.IsDistinct ∧
      (∀ n ∈ h'.columns, n ∈ h.columns ++ assignments.map Prod.fst) ∧ Reached c source s ∧
      s.Follows w h' ∧ s.level.IsDistinct)
    ⟨hh, fun n hn => List.mem_append_left _ hn, hs, hfollows, hlevel⟩ ?_).imp
      fun _ _ hlast => hlast.2.2.2.2
  rintro s₁ w h₁ ⟨hh₁, hcolumns₁, hs₁, hfollows₁, hlevel₁⟩ a ha
  have hgroups : s₁.groups.Nodup := hfollows₁.groups ▸ hh₁.groups
  refine ((ensuresAfter_mutate hs₁ a.1 a.2).and
    (ensuresAfter_mutate_isDistinct hs₁ hlevel₁ hgroups a.1 fun hjoins n hn => ?_)).imp ?_
  · rw [hfollows₁.columns] at hn
    exact hclash ⟨⟨a.2, List.mem_map_of_mem ha, hjoins⟩, n, hcolumns₁ _ hn⟩
  · rintro s₂ _ ⟨⟨hs₂, rfl⟩, hlevel₂⟩
    have hfollows₂ := hs₂.follows hfollows₁
    rw [hfollows₁.columns] at hfollows₂
    refine ⟨⟨nodup_withName hh₁.columns a.1, hh₁.groups⟩, ?_, hs₂.reached, hfollows₂, hlevel₂⟩
    intro n hn
    rcases mem_withName_iff.1 hn with hn | rfl
    · exact hcolumns₁ n hn
    · exact List.mem_append_right _ (List.mem_map_of_mem ha)

theorem ensuresAfter_step_level (hs : Reached c source s) (hfollows : s.Follows before h)
    (hh : h.IsDistinct) (hlevel : s.level.IsDistinct) {op : Op} (hrepeats : ¬h.Repeats op)
    (hclash : ¬h.Clashes c op) :
    (c.step s op).EnsuresAfter before fun s' _ => s'.level.IsDistinct := by
  have hcolumns : (c.step s op).EnsuresAfter before fun s' _ => s'.columns.Nodup := by
    refine ((ensuresAfter_step hs hfollows op).and
      (ensuresAfter_step_isDistinct hs hfollows hh hrepeats)).imp ?_
    rintro s' _ ⟨⟨_, hfollows'⟩, hdistinct⟩
    exact hfollows'.columns ▸ hdistinct.columns
  cases op with
  | select idents =>
      refine (hcolumns.and (ensuresAfter_select_isDistinct hs hlevel idents)).imp ?_
      exact fun _ _ h => h.2 h.1
  | rename pairs =>
      refine (hcolumns.and (ensuresAfter_rename_isDistinct hs hlevel pairs)).imp ?_
      exact fun _ _ h => h.2 h.1
  | summarise assignments =>
      refine (hcolumns.and (ensuresAfter_summarise_isDistinct hlevel assignments)).imp ?_
      exact fun _ _ h => h.2 h.1
  | filter => exact ensuresAfter_filters_isDistinct hs hfollows hh hlevel hclash
  | mutate => exact ensuresAfter_mutates_isDistinct hs hfollows hh hlevel hclash
  | arrange keys =>
      refine (EnsuresAfter.lift _).imp ?_
      rintro s' _ ⟨hs', rfl⟩
      obtain ⟨⟨⟩, _, hs'⟩ := exists_of_bind_eq_ok hs'
      cases hs'
      exact hlevel
  | groupBy keys add =>
      refine (EnsuresAfter.lift _).imp ?_
      rintro s' _ ⟨hs', rfl⟩
      obtain ⟨⟨⟩, _, hs'⟩ := exists_of_bind_eq_ok hs'
      cases hs'
      exact hlevel
  | ungroup => exact .pure hlevel

/-! ## Chains -/

theorem ensuresAfter_steps_isDistinct {ops : List Op} (hs : Reached c source s)
    (hfollows : s.Follows before h) (hh : h.IsDistinct)
    (hops : ∀ n op, ops[n]? = some op → ¬((ops.take n).foldl Heading.apply h).Repeats op) :
    (ops.foldlM c.step s).EnsuresAfter before fun s' _ => (ops.foldl Heading.apply h).IsDistinct ∧
      (s.level.IsDistinct →
        (∀ n op, ops[n]? = some op → ¬((ops.take n).foldl Heading.apply h).Clashes c op) →
        s'.level.IsDistinct) := by
  induction ops generalizing s h before with
  | nil => exact .pure ⟨hh, fun hlevel _ => hlevel⟩
  | cons op ops ih =>
      rw [List.foldlM_cons]
      have hrepeats : ¬h.Repeats op := hops 0 op rfl
      have hlevel : (c.step s op).EnsuresAfter before fun s' _ =>
          s.level.IsDistinct → ¬h.Clashes c op → s'.level.IsDistinct :=
        fun p s' q hp hrun hlevel hclash =>
          ensuresAfter_step_level hs hfollows hh hlevel hrepeats hclash p s' q hp hrun
      refine (((ensuresAfter_step hs hfollows op).and
        (ensuresAfter_step_isDistinct hs hfollows hh hrepeats)).and hlevel).bind ?_
      rintro s₁ w ⟨⟨⟨hs₁, hfollows₁⟩, hh₁⟩, hlevel₁⟩
      refine (ih hs₁ hfollows₁ hh₁ fun n op hop => hops (n + 1) op hop).imp ?_
      rintro s₂ _ ⟨hh₂, hlevel₂⟩
      refine ⟨hh₂, fun hlevel hclash => hlevel₂ (hlevel₁ hlevel (hclash 0 op rfl)) ?_⟩
      exact fun n op hop => hclash (n + 1) op hop

theorem ensuresAfter_arranged_isDistinct (mode : Mode) (hs : Reached c source s)
    (hfollows : s.Follows before h) (hh : h.IsDistinct) (hlevel : s.level.IsDistinct) :
    (Query.arranged c mode s).EnsuresAfter before fun s' _ => s'.level.IsDistinct := by
  have hcolumns : (Query.arranged c mode s).EnsuresAfter before fun s' _ => s'.columns.Nodup := by
    refine (ensuresAfter_arranged mode hs hfollows).imp ?_
    rintro s' _ ⟨⟨_, hfollows'⟩, _⟩
    exact hfollows'.columns ▸ (hh.shown mode).columns
  have hkept : (Query.arranged c mode s).EnsuresAfter before fun s' _ =>
      s'.columns.Nodup → s'.level.IsDistinct := by
    cases mode with
    | plain => exact .pure fun _ => hlevel
    | groups =>
        rw [Query.arranged, State.groupOrdered]
        split
        · exact .pure fun _ => hlevel
        · refine (ensuresAfter_select_isDistinct hs hlevel _).bind fun s' _ hs' => ?_
          exact .pure fun hcolumns => hs' hcolumns
    | labels =>
        rw [Query.arranged, Compiler.labels]
        by_cases hgroups : s.groups.isEmpty = true
        · rw [if_pos hgroups]
          exact .throw _
        · rw [if_neg hgroups]
          refine (ensuresAfter_summarise_isDistinct hlevel []).bind fun s' _ hs' => ?_
          exact .pure fun hcolumns => hs' hcolumns
  exact (hcolumns.and hkept).imp fun _ _ h => h.2 h.1

end BuildM

namespace Query

variable {q : Query} {mode : Mode} {dialect : Dialect} {config : Config}

/-- No selection and no summary asks for a name twice. -/
def IsApart (q : Query) : Prop := ∀ n op, q.ops[n]? = some op → ¬(q.upTo n).heading.Repeats op

/-- Where columns of a join are needed, no column has a temporary name. -/
def IsFresh (q : Query) (c : Compiler) : Prop :=
  ∀ n op, q.ops[n]? = some op → ¬(q.upTo n).heading.Clashes c op

theorem IsApart.upTo (h : q.IsApart) (n : Nat) : (q.upTo n).IsApart := by
  intro m op hop
  obtain ⟨hop, heq⟩ := getElem?_upTo hop
  rw [heq]
  exact h m op hop

theorem IsFresh.upTo {c : Compiler} (h : q.IsFresh c) (n : Nat) : (q.upTo n).IsFresh c := by
  intro m op hop
  obtain ⟨hop, heq⟩ := getElem?_upTo hop
  rw [heq]
  exact h m op hop

theorem isDistinct_build {c : Compiler} (hsource : q.source.columns.Nodup) (hq : q.IsApart)
    {s : State} {later : Progress} (hbuild : (c.build q).run .start = .ok (s, later)) :
    q.heading.IsDistinct ∧ (q.IsFresh c → s.level.IsDistinct) := by
  have hfollows : (State.ofSource q.source).Follows [] (.ofSource q.source) :=
    ⟨Body.outputs_identity q.source.columns, rfl, rfl, rfl⟩
  have hsteps := BuildM.ensuresAfter_steps_isDistinct (c := c) .start hfollows ⟨hsource, .nil⟩ hq
  obtain ⟨hdistinct, hlevel⟩ := hsteps .start s later rfl hbuild
  exact ⟨hdistinct, hlevel (Level.isDistinct_ofSource hsource)⟩

/-- Nothing but such a selection or summary puts two columns under one name. -/
theorem isApart_iff_nodup {c : Compiler} (hsource : q.source.columns.Nodup) {s : State}
    {later : Progress} (hbuild : (c.build q).run .start = .ok (s, later)) :
    q.IsApart ↔ ∀ n, (q.upTo n).heading.columns.Nodup := by
  constructor
  · intro hq n
    obtain ⟨t, between, hfirst⟩ := exists_run_upTo hbuild n
    exact (isDistinct_build (q := q.upTo n) hsource (hq.upTo n) hfirst).1.columns
  · intro hnames n op hop hrepeats
    have hnext : (q.upTo (n + 1)).heading = (q.upTo n).heading.apply op := by
      rw [heading, heading, upTo, upTo, List.take_add_one, hop, List.foldl_append]
      rfl
    have hcolumns := hnames (n + 1)
    rw [hnext] at hcolumns
    cases op with
    | select => exact hrepeats hcolumns
    | summarise => exact hrepeats (List.nodup_append.1 hcolumns).2.1
    | _ => exact hrepeats

/-- The names of a chain stay apart after every operation, and in every statement, if no selection
and no summary asks for a name twice. Those of all levels do where no column of a join can get the
name of a column that is there. An operation that would put two columns under one name is then
refused. -/
theorem isDistinct_render (q : Query) (dialect : Dialect) (config : Config)
    (hsource : q.source.columns.Nodup) (hq : q.IsApart) :
    (∀ n s later, (Compiler.build (.builtin dialect config) (q.upTo n)).run .start = .ok (s, later) →
      s.columns.Nodup ∧ s.groups.Nodup ∧
        (q.IsFresh (.builtin dialect config) → s.level.IsDistinct)) ∧
    (∀ mode r, q.render mode dialect config = .ok r →
      r.columns.Nodup ∧ r.groups.Nodup ∧
        (q.IsFresh (.builtin dialect config) → ∃ s, s.level.IsDistinct ∧
          r.Shows (.builtin dialect config) s (q.heading.dropped.map .orderingDropped))) ∧
    ((∃ n, ¬(q.upTo n).heading.columns.Nodup) →
      ∀ mode, ∃ e, q.render mode dialect config = .error e) := by
  refine ⟨?_, ?_, ?_⟩
  · intro n s later hbuild
    obtain ⟨hdistinct, hlevel⟩ := isDistinct_build (q := q.upTo n) hsource (hq.upTo n) hbuild
    have hfollows := (build_follows hbuild).2
    rw [hfollows.columns, hfollows.groups]
    exact ⟨hdistinct.columns, hdistinct.groups, fun hfresh => hlevel (hfresh.upTo n)⟩
  · intro mode r hrender
    obtain ⟨s, built, _, _, _, hbuild, _, _⟩ := exists_runs_of_render hrender
    have hdistinct := (isDistinct_build hsource hq hbuild).1.shown mode
    obtain ⟨_, _, hfollows, hshows⟩ := exists_of_render hrender
    refine ⟨?_, ?_, fun hfresh => ?_⟩
    · rw [hshows.columns, hfollows.columns]
      exact hdistinct.columns
    · rw [hshows.groups, hfollows.groups]
      exact hdistinct.groups
    · obtain ⟨shown, ⟨_, _, hshows⟩, hlevel⟩ := exists_of_render_level (Q := Level.IsDistinct)
        hrender fun s built shown between hbuild harranged => by
          obtain ⟨hdistinct, hlevel⟩ := isDistinct_build hsource hq hbuild
          obtain ⟨hs, hfollows⟩ := build_follows hbuild
          have hshown := BuildM.ensuresAfter_arranged_isDistinct mode hs hfollows hdistinct
            (hlevel hfresh) built shown between rfl harranged
          exact ⟨hshown, hshown.wrap⟩
      exact ⟨shown, hlevel, hshows⟩
  · rintro ⟨n, hn⟩ mode
    cases hrender : q.render mode dialect config with
    | error e => exact ⟨e, rfl⟩
    | ok r =>
        obtain ⟨s, built, _, _, _, hbuild, _, _⟩ := exists_runs_of_render hrender
        obtain ⟨t, between, hfirst⟩ := exists_run_upTo hbuild n
        exact absurd (isDistinct_build (q := q.upTo n) hsource (hq.upTo n) hfirst).1.columns hn

/-! ## Particular chains -/

instance (h : Heading) : (op : Op) → Decidable (h.Repeats op)
  | .select idents =>
    inferInstanceAs (Decidable ¬(h.missing idents ++ idents.map Ident.output).Nodup)
  | .summarise assignments => inferInstanceAs (Decidable ¬(assignments.map Prod.fst).Nodup)
  | .rename _ | .filter _ | .mutate _ | .arrange _ | .groupBy _ _ | .ungroup =>
    inferInstanceAs (Decidable False)

theorem isApart_iff : q.IsApart ↔ ∀ n : Fin q.ops.length, ¬(q.upTo n).heading.Repeats q.ops[n] := by
  constructor
  · exact fun hq n => hq n _ (List.getElem?_eq_getElem n.isLt)
  · intro hq n op hop
    obtain ⟨hn, rfl⟩ := List.getElem?_eq_some_iff.1 hop
    exact hq ⟨n, hn⟩

instance (q : Query) : Decidable q.IsApart := decidable_of_iff _ isApart_iff.symm

/-- All temporary names begin in the same way. -/
theorem isFresh_of_names {c : Compiler}
    (hnames : ∀ n : Fin q.ops.length, ∀ name ∈ (q.upTo n).heading.columns ++ q.ops[n].assigned,
      name.toList.take 3 ≠ "win".toList) : q.IsFresh c := by
  rintro n op hop ⟨_, m, hm⟩
  obtain ⟨hn, rfl⟩ := List.getElem?_eq_some_iff.1 hop
  refine hnames ⟨n, hn⟩ _ hm ?_
  simp [temporaryName]

theorem isDistinct_render_windowed :
    windowed.source.columns.Nodup ∧ windowed.IsApart ∧ windowed.IsFresh (.builtin .mysql57 .default) ∧
      ∃ r s, windowed.render .groups .mysql57 .default = .ok r ∧ r.columns.Nodup ∧
        s.level.IsDistinct ∧ r.Shows (.builtin .mysql57 .default) s
          (windowed.heading.dropped.map .orderingDropped) := by
  have hsource : windowed.source.columns.Nodup := by decide
  have hapart : windowed.IsApart := by decide
  have hfresh : windowed.IsFresh (.builtin .mysql57 .default) := isFresh_of_names (by decide)
  obtain ⟨r, hrender⟩ := exists_of_isOk
    (r := windowed.render .groups .mysql57 .default) (by decide +kernel)
  obtain ⟨hcolumns, _, hlevels⟩ :=
    (isDistinct_render windowed .mysql57 .default hsource hapart).2.1 .groups r hrender
  obtain ⟨s, hlevel, hshows⟩ := hlevels hfresh
  exact ⟨hsource, hapart, hfresh, r, s, hrender, hcolumns, hlevel, hshows⟩

/-- A column that is selected twice. -/
def selectedTwice : Query where
  source := { schema := none, name := "t", columns := ["x", "y"] }
  ops := [.select [.ofName "x", .ofName "x"]]

/-- Nothing refuses a selection that repeats a name. -/
theorem columns_selectedTwice :
    selectedTwice.source.columns.Nodup ∧
      ∃ r, selectedTwice.render .plain .ansi .default = .ok r ∧ ¬r.columns.Nodup := by
  refine ⟨by decide, ?_⟩
  obtain ⟨r, hrender⟩ := exists_of_isOk
    (r := selectedTwice.render .plain .ansi .default) (by decide +kernel)
  have hcolumns : (selectedTwice.render .plain .ansi .default).toOption.map (·.columns) =
      some ["x", "x"] := by decide +kernel
  rw [hrender] at hcolumns
  have htwice : r.columns = ["x", "x"] := Option.some.inj hcolumns
  refine ⟨r, hrender, ?_⟩
  rw [htwice]
  decide

end Query

end SqlChain
