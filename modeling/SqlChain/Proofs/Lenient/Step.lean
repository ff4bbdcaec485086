import SqlChain.Proofs.Chain.Course
import SqlChain.Proofs.Lenient.Emulation
import SqlChain.Proofs.Lenient.Extraction

/-!
# Steps for a compiler that refuses little

What a chain is built of succeeds where everything that is compiled in it succeeds. Window calls
that another compiler writes or emulates can be placed by a lenient one, in columns of their own or
where they stand.
-/

namespace SqlChain

open CompileM

variable {c a : Compiler} {source : Source} {s t : State} {before : List Warning}

namespace BuildM

/-! ## Predicates and assignments -/

theorem succeedsAfter_wrapIf (s : State) (condition : Bool) :
    (s.wrapIf condition).SucceedsAfter before := by
  rw [State.wrapIf]
  split
  · exact SucceedsAfter.seq (fun _ _ => ⟨_, _, rfl⟩) fun _ _ => .pure _
  · exact .pure s

theorem passes_filterRows (e : Expr) :
    (c.filterRows s e).EnsuresAfter before fun _ _ => (c.compile .scalar e).Passes := by
  refine (EnsuresAfter.trivial _).bind fun _ _ _ => ?_
  refine (EnsuresAfter.compiling _).bind ?_
  rintro sql _ ⟨⟨warnings, later, hrun⟩, _⟩
  exact .pure ⟨warnings, sql, later, hrun⟩

theorem succeedsAfter_filterRows (t : State) {e : Expr} (h : (a.compile .scalar e).Succeeds) :
    (a.filterRows t e).SucceedsAfter before := by
  refine SucceedsAfter.seq (succeedsAfter_wrapIf t _) fun _ _ => ?_
  exact SucceedsAfter.seq (.compiling h) fun _ _ => .pure _

/-- What an assignment is compiled in. -/
def assignContext (s : State) (windowed : Bool) : Context :=
  if windowed then .windowed s.groups s.order else .scalar

theorem ensuresAfter_wrapIf_same (hs : Reached c source s) (condition : Bool) :
    (s.wrapIf condition).EnsuresAfter before fun s' _ =>
      s'.groups = s.groups ∧ s'.order = s.order := by
  refine (ensuresAfter_wrapIf hs (Q := fun _ => True) (fun _ => .intro) fun _ => .intro).imp ?_
  rintro s' _ ⟨⟨hs', _⟩, _⟩
  exact ⟨hs'.groups, hs'.order⟩

theorem passes_assign (hs : Reached c source s) (windowed : Bool) (name : String) (e : Expr) :
    (c.assign s windowed name e).EnsuresAfter before fun _ _ =>
      (c.compile (assignContext s windowed) e).Passes := by
  refine (ensuresAfter_wrapIf_same hs _).bind ?_
  rintro s' _ ⟨hgroups, horder⟩
  refine (EnsuresAfter.compiling _).bind ?_
  rintro sql _ ⟨⟨warnings, later, hrun⟩, _⟩
  rw [hgroups, horder] at hrun
  exact .pure ⟨warnings, sql, later, hrun⟩

theorem succeedsAfter_assign (ht : Reached a source t) (windowed : Bool) (name : String) {e : Expr}
    (h : (a.compile (assignContext t windowed) e).Succeeds) :
    (a.assign t windowed name e).SucceedsAfter before := by
  refine SucceedsAfter.bind (succeedsAfter_wrapIf t _) (ensuresAfter_wrapIf_same ht _) ?_
  rintro t' _ ⟨hgroups, horder⟩
  rw [assignContext, ← hgroups, ← horder] at h
  exact SucceedsAfter.seq (.compiling h) fun _ _ => .pure _

/-! ## Columns for window calls -/

theorem passes_assigns (hs : Reached c source s) {calls : List ExtractedCall}
    (hcalls : ∀ x ∈ calls, ∀ n ∈ x.call.columns, n ∈ s.columns) :
    (calls.foldlM (fun s x => c.assign s true x.temporary x.call) s).EnsuresAfter before fun _ _ =>
      ∀ x ∈ calls, (c.compile (.windowed s.groups s.order) x.call).Passes := by
  induction calls generalizing s before with
  | nil => exact .pure nofun
  | cons x rest ih =>
      rw [List.foldlM_cons]
      refine ((ensuresAfter_assign hs true x.temporary (hcalls x (by simp))).and
        (passes_assign hs true x.temporary x.call)).bind ?_
      rintro s₁ w ⟨⟨h₁, rfl⟩, hpasses⟩
      have hrest : ∀ y ∈ rest, ∀ n ∈ y.call.columns, n ∈ s₁.columns := by
        rw [h₁.columns]
        exact fun y hy n hn => mem_withName (hcalls y (by simp [hy]) n hn) x.temporary
      refine (ih h₁.reached hrest).imp fun _ _ hpassed => ?_
      rw [h₁.groups, h₁.order] at hpassed
      exact List.forall_mem_cons.2 ⟨hpasses, hpassed⟩

theorem succeedsAfter_assigns (ht : Reached a source t) {calls : List ExtractedCall}
    (hcalls : ∀ x ∈ calls, ∀ n ∈ x.call.columns, n ∈ t.columns)
    (h : ∀ x ∈ calls, (a.compile (.windowed t.groups t.order) x.call).Succeeds) :
    (calls.foldlM (fun t x => a.assign t true x.temporary x.call) t).SucceedsAfter before := by
  induction calls generalizing t before with
  | nil => exact .pure t
  | cons x rest ih =>
      rw [List.foldlM_cons]
      refine (succeedsAfter_assign ht true x.temporary (h x (by simp))).bind
        (ensuresAfter_assign ht true x.temporary (hcalls x (by simp))) ?_
      rintro t₁ _ ⟨h₁, rfl⟩
      refine ih h₁.reached ?_ ?_
      · rw [h₁.columns]
        exact fun y hy n hn => mem_withName (hcalls y (by simp [hy]) n hn) x.temporary
      · rw [h₁.groups, h₁.order]
        exact fun y hy => h y (by simp [hy])

theorem succeedsAfter_emulateAll (ha : a.IsLenient) (t : State) {calls : List ExtractedCall}
    (h : ∀ x ∈ calls, ∀ source before, (a.emulate source t.groups x).SucceedsAfter before) :
    (a.emulateAll t calls).SucceedsAfter before := by
  refine SucceedsAfter.seq (.lift (ha.exists_render t.level)) fun source _ => ?_
  refine SucceedsAfter.seq (.mapM fun x hx => h x hx source) fun emulated _ => ?_
  dsimp only
  split
  · exact .pure _
  · refine SucceedsAfter.seq (fun _ _ => ⟨_, _, rfl⟩) fun name _ => ?_
    exact SucceedsAfter.seq (.lift (ha.exists_matching t.groups)) fun _ _ => .pure _

end BuildM

theorem IsEmulation.exists_emulates {s' : State} {calls : List ExtractedCall}
    (h : IsEmulation c s calls s') : ∀ x ∈ calls, ∃ source emulated,
      Emulates c source s.groups x emulated := by
  have hforall : ∀ {source : String} {emulated : List Compiler.Emulated},
      List.Forall₂ (Emulates c source s.groups) calls emulated →
        ∀ x ∈ calls, ∃ source emulated, Emulates c source s.groups x emulated :=
    fun hall => forall_of_forall₂ (hall.imp fun _ _ hx => ⟨_, _, hx⟩).flip
  cases h with
  | ranks _ hemulated _ => exact hforall hemulated
  | joined _ hemulated _ => exact hforall hemulated

/-- A column can be added for the call. -/
def Compiler.Places (a : Compiler) (groups : List String) (order : List Expr) (x : ExtractedCall) :
    Prop :=
  if a.needsJoin x.call then ∀ source before, (a.emulate source groups x).SucceedsAfter before
  else (a.compile (.windowed groups order) x.call).Succeeds

namespace Compiler.IsLenientFor

variable (h : a.IsLenientFor c)

include h

theorem isWindowCall_eq : a.isWindowCall = c.isWindowCall := by
  funext function arity window
  rw [isWindowCall, isWindowCall, h.functions]

theorem needsWindow_eq : a.needsWindow = c.needsWindow := by
  have hcalls : a.isWindowExpr = c.isWindowExpr := by
    funext e
    cases e with
    | call function args window => rw [isWindowExpr, isWindowExpr, h.isWindowCall_eq]
    | _ => rfl
  funext e
  rw [needsWindow, needsWindow, hcalls]

theorem needsJoin_eq : a.needsJoin = c.needsJoin := by
  have hcalls : a.isJoinOnly = c.isJoinOnly := by
    funext e
    cases e with
    | call function args window => rw [isJoinOnly, isJoinOnly, h.functions]
    | _ => rfl
  funext e
  rw [needsJoin, needsJoin, hcalls]

/-- What is emulated can be emulated again or written over a window. -/
theorem places_of_emulates {source : String} {groups : List String} {x y : ExtractedCall}
    {emulated : Compiler.Emulated} (hx : Emulates c source groups x emulated)
    (hcall : y.call = x.call) (others : List String) (order : List Expr) :
    a.Places others order y := by
  rw [Places]
  split
  · exact fun source before => BuildM.succeedsAfter_emulate h hx hcall source others
  · rw [hcall]
    exact (h.succeeds_term hx _).bind fun _ => .pure _

/-- What was placed can be placed by a lenient compiler, whatever it is called. -/
theorem places_materialise (hs : Reached c source s) {calls : List ExtractedCall}
    (hcalls : ∀ x ∈ calls, ∀ n ∈ x.call.columns, n ∈ s.columns) :
    (c.materialise s calls).EnsuresAfter before fun _ _ =>
      ∀ x ∈ calls, ∀ y : ExtractedCall, y.call = x.call → a.Places s.groups s.order y := by
  have hemulated : ∀ calls : List ExtractedCall,
      (c.emulateAll s calls).EnsuresAfter before fun _ _ =>
        ∀ x ∈ calls, ∀ y : ExtractedCall, y.call = x.call → a.Places s.groups s.order y := by
    intro calls
    refine (BuildM.ensuresAfter_emulateAll s calls).imp ?_
    rintro s' _ ⟨hemulation, _⟩ x hx y hcall
    obtain ⟨source, emulated, hx⟩ := hemulation.exists_emulates x hx
    exact h.places_of_emulates hx hcall s.groups s.order
  have hfirst : ∀ joined : List ExtractedCall,
      (if joined.isEmpty then pure s else c.emulateAll s joined : BuildM State).EnsuresAfter before
        fun _ _ => ∀ x ∈ joined, ∀ y : ExtractedCall, y.call = x.call →
          a.Places s.groups s.order y := by
    intro joined
    split
    · next hnone =>
        refine .pure ?_
        simp [List.isEmpty_iff.1 hnone]
    · exact hemulated joined
  by_cases hwindows : c.hasWindows = true
  · rw [BuildM.materialise_eq hwindows]
    have hjoined : ∀ x ∈ calls.filter fun x => c.needsJoin x.call,
        ∀ n ∈ x.call.columns, n ∈ s.columns :=
      fun x hx => hcalls x (List.mem_filter.1 hx).1
    refine ((BuildM.ensuresAfter_joined hs hjoined).and (hfirst _)).bind ?_
    rintro s₁ w ⟨⟨h₁, _⟩, hplaces⟩
    refine (BuildM.passes_assigns h₁.reached fun x hx n hn => ?_).imp ?_
    · exact h₁.columns n (List.mem_append_left _ (hcalls x (List.mem_filter.1 hx).1 n hn))
    intro _ _ hpasses x hx y hcall
    cases hjoin : c.needsJoin x.call with
    | true => exact hplaces x (List.mem_filter.2 ⟨hx, hjoin⟩) y hcall
    | false =>
        have hpass := hpasses x (List.mem_filter.2 ⟨hx, by simp [hjoin]⟩)
        rw [h₁.groups, h₁.order] at hpass
        rw [Places, hcall, h.needsJoin_eq, hjoin]
        exact (h.leads_compile_windowed s.groups s.order x.call).succeeds hpass
  · rw [Compiler.materialise, if_pos (by simpa using hwindows)]
    exact hemulated calls

end Compiler.IsLenientFor

theorem BuildM.succeedsAfter_materialise (ha : a.IsLenient) (ht : Reached a source t)
    {calls : List ExtractedCall} (hcalls : ∀ x ∈ calls, ∀ n ∈ x.call.columns, n ∈ t.columns)
    (h : ∀ x ∈ calls, a.Places t.groups t.order x) :
    (a.materialise t calls).SucceedsAfter before := by
  have hwindows : a.hasWindows = true := ha.windows
  rw [BuildM.materialise_eq hwindows]
  have hjoined : ∀ x ∈ calls.filter fun x => a.needsJoin x.call,
      ∀ n ∈ x.call.columns, n ∈ t.columns :=
    fun x hx => hcalls x (List.mem_filter.1 hx).1
  refine SucceedsAfter.bind ?_ (BuildM.ensuresAfter_joined ht hjoined) ?_
  · split
    · exact .pure t
    · refine BuildM.succeedsAfter_emulateAll ha t fun x hx => ?_
      obtain ⟨hx, hjoin⟩ := List.mem_filter.1 hx
      have hplaces := h x hx
      rw [Compiler.Places, hjoin] at hplaces
      exact hplaces
  · rintro t₁ w ⟨h₁, _⟩
    refine BuildM.succeedsAfter_assigns h₁.reached (fun x hx n hn => ?_) fun x hx => ?_
    · exact h₁.columns n (List.mem_append_left _ (hcalls x (List.mem_filter.1 hx).1 n hn))
    · obtain ⟨hx, hjoin⟩ : x ∈ calls ∧ a.needsJoin x.call = false := by simpa using hx
      have hplaces := h x hx
      rw [Compiler.Places, hjoin] at hplaces
      rw [h₁.groups, h₁.order]
      exact hplaces

/-! ## Expressions with window calls -/

/-- A lenient compiler gets along with the window calls of an expression once they are taken out. -/
structure Compiler.Extracts (a : Compiler) (groups : List String) (order : List Expr) (e : Expr) :
    Prop where
  places : ∀ issued, ∀ x ∈ ((e.extract a.isWindowCall).run { issued, calls := [] }).2.calls,
    a.Places groups order x
  rest : ∀ issued,
    (a.compile .scalar ((e.extract a.isWindowCall).run { issued, calls := [] }).1).Succeeds

namespace BuildM

/-- The names for the calls go on from those that were handed out. -/
theorem ensuresAfter_extracting_run (p : String → Nat → Bool → Bool) (e : Expr) :
    (extracting p e).EnsuresAfter before fun taken w =>
      (∃ issued, ((e.extract p).run { issued, calls := [] }).1 = taken.1 ∧
        ((e.extract p).run { issued, calls := [] }).2.calls = taken.2) ∧ w = before := by
  rintro progress taken later rfl hrun
  cases hrun
  exact ⟨⟨progress.temporaries, rfl, rfl⟩, rfl⟩

theorem emulates_materialise (calls : List ExtractedCall) :
    (c.materialise s calls).EnsuresAfter before fun _ _ => c.hasWindows = false →
      ∀ x ∈ calls, ∃ source emulated, Emulates c source s.groups x emulated := by
  rw [Compiler.materialise]
  split
  · exact (ensuresAfter_emulateAll s calls).imp fun _ _ h _ => h.1.exists_emulates
  · next hwindows =>
      refine (EnsuresAfter.trivial _).imp fun _ _ _ hnone => ?_
      exact absurd hnone (by simpa using hwindows)

/-- What is done once the window calls of an expression have columns of their own. -/
theorem succeedsAfter_extracting (ha : a.IsLenient) (ht : Reached a source t) {e : Expr}
    (he : ∀ n ∈ e.columns, n ∈ t.columns) (hextracts : a.Extracts t.groups t.order e)
    {k : Expr → State → BuildM State}
    (hk : ∀ rest names t₁ w, Gains a source t names t₁ → (∀ n ∈ rest.columns, n ∈ t₁.columns) →
      (a.compile .scalar rest).Succeeds → (k rest t₁).SucceedsAfter w) :
    SucceedsAfter
      (do
        let (rest, calls) ← extracting a.isWindowCall e
        k rest (← a.materialise t calls)) before := by
  refine SucceedsAfter.bind (fun _ _ => ⟨_, _, rfl⟩) ((ensuresAfter_extracting a.isWindowCall e).and
    (ensuresAfter_extracting_run a.isWindowCall e)) ?_
  rintro ⟨rest, calls⟩ _ ⟨⟨⟨hcalls, hrest⟩, rfl⟩, ⟨issued, rfl, rfl⟩, _⟩
  have hcolumns := fun x hx n hn => he n (hcalls x hx n hn)
  refine SucceedsAfter.bind (succeedsAfter_materialise ha ht hcolumns (hextracts.places issued))
    (ensuresAfter_materialise ht hcolumns) ?_
  rintro t₁ w ⟨h₁, _⟩
  refine hk _ _ t₁ w h₁ (fun n hn => ?_) (hextracts.rest issued)
  exact h₁.columns n (List.mem_append.2 ((hrest n hn).imp_left (he n)))

/-- Calls that have columns of their own can have them for a lenient compiler too. Where they are
all emulated, they can be written over windows as well. -/
theorem extracts_of_extracting (ha : a.IsLenientFor c) (hs : Reached c source s) {e : Expr}
    (he : ∀ n ∈ e.columns, n ∈ s.columns) {k : Expr → State → BuildM State}
    (hk : ∀ rest names s₁ w, Gains c source s names s₁ →
      (k rest s₁).EnsuresAfter w fun _ _ => (c.compile .scalar rest).Passes) :
    EnsuresAfter
      (do
        let (rest, calls) ← extracting c.isWindowCall e
        k rest (← c.materialise s calls)) before
      fun _ _ => a.Extracts s.groups s.order e ∧
        (c.hasWindows = false → (a.compile (.windowed s.groups s.order) e).Succeeds) := by
  obtain ⟨es, hleaves⟩ := Expr.leaves_extract c.isWindowCall e
  have hes : ∀ issued, ((e.extract c.isWindowCall).run
      { issued, calls := [] }).2.calls.map ExtractedCall.call = es :=
    fun issued => hleaves.calls { issued, calls := [] }
  refine ((ensuresAfter_extracting c.isWindowCall e).and
    (ensuresAfter_extracting_run c.isWindowCall e)).bind ?_
  rintro ⟨rest, calls⟩ _ ⟨⟨⟨hcalls, _⟩, rfl⟩, ⟨issued, rfl, rfl⟩, _⟩
  have hcolumns := fun x hx n hn => he n (hcalls x hx n hn)
  refine (((ensuresAfter_materialise hs hcolumns).and (ha.places_materialise hs hcolumns)).and
    (emulates_materialise _)).bind ?_
  rintro s₁ w ⟨⟨⟨h₁, _⟩, hplaces⟩, hemulates⟩
  refine (hk _ _ s₁ w h₁).imp fun _ _ hpasses => ⟨⟨fun other y hy => ?_, fun other => ?_⟩, ?_⟩
  · rw [ha.isWindowCall_eq] at hy
    have hmem : y.call ∈ es := hes other ▸ List.mem_map_of_mem hy
    rw [← hes issued] at hmem
    obtain ⟨x, hx, hcall⟩ := List.mem_map.1 hmem
    exact hplaces x hx y hcall.symm
  · rw [ha.isWindowCall_eq]
    exact (ha.leads_compile (hleaves.same _ _)).succeeds hpasses
  · intro hnone
    have hfills := hleaves.original (· ∈ es) (fun _ hy => hy) { issued, calls := [] }
    refine (ha.leads_compile_filled hfills ?_ s.groups s.order).succeeds hpasses
    intro y hy
    rw [← hes issued] at hy
    obtain ⟨x, hx, rfl⟩ := List.mem_map.1 hy
    obtain ⟨source, emulated, hx⟩ := hemulates hnone x hx
    exact ⟨source, s.groups, x, emulated, rfl, hx⟩

end BuildM

end SqlChain
