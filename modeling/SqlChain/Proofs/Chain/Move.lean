import SqlChain.Proofs.Chain.Emulation
import SqlChain.Proofs.Meaning.Relation

/-!
# Moves of a chain

Every operation of a chain is made of moves of a few kinds. A move says all that is known of the
state before it, so that what holds of every state of a chain is shown by one case for each move.
-/

namespace SqlChain

variable {c : Compiler}

inductive Move (c : Compiler) : State → State → Prop
  | wrap (s : State) (name : String) : Move c s { s with level := s.level.wrap name }
  /-- A predicate for the rows that the level reads. -/
  | restrict {s : State} {f : Fragment} (haggregated : s.level.body.aggregated = false)
      (hwindowed : s.level.body.windowed = false) (hjoin : s.level.isJoin = false)
      (href : s.level.body.canReference f.columns = true) (hwindow : f.window = none)
      (hspelled : f.IsSpelled c) :
      Move c s
        { s with
          level := s.level.withBody
            { s.level.body with filters := s.level.body.filters ++ [f] } }
  /-- A column that is added, or replaced at its place. -/
  | compute {s : State} {f : Fragment} (name : String)
      (haggregated : s.level.body.aggregated = false) (hjoin : s.level.isJoin = false)
      (href : s.level.body.canReference f.columns = true)
      (hwindow : ∀ w ∈ f.window, w = { partition := s.groups, order := s.order })
      (hspelled : f.IsSpelled c) :
      Move c s
        { s with
          level := s.level.withBody
            { s.level.body.setItem { name, value := .computed f } with
              windowed := s.level.body.windowed || f.window.isSome } }
  | project {s : State} {idents : List Ident} (hnames : ∀ i ∈ idents, i.name ∈ s.columns)
      (hgroups : ∀ g ∈ s.groups, ∃ i ∈ idents, i.name = g) : Move c s (s.project idents)
  | summarise {s : State} {computed : List Item} (hplain : s.level.isPlain = true)
      (hcomputed : ∀ item ∈ computed, ∃ f : Fragment, item.value = .computed f ∧
        f.window = none ∧ f.IsSpelled c ∧ ∀ n ∈ f.columns, n ∈ s.columns) :
      Move c s
        { level := s.level.withBody (s.level.body.summary s.groups computed)
          groups := []
          order := [] }
  | emulate {s s' : State} {calls : List ExtractedCall}
      (hcalls : ∀ x ∈ calls, ∀ n ∈ x.call.columns, n ∈ s.columns)
      (hemulation : IsEmulation c s calls s') : Move c s s'
  | arrange {s : State} {order : List Expr}
      (horder : ∀ key ∈ order, ∀ n ∈ key.columns, n ∈ s.columns) : Move c s { s with order }
  | regroup {s : State} {groups : List String} (hgroups : ∀ g ∈ groups, g ∈ s.columns) :
      Move c s { s with groups }

/-- The states that moves lead to, beginning with a table. -/
inductive Reached (c : Compiler) (source : Source) : State → Prop
  | start : Reached c source (.ofSource source)
  | move {s s' : State} (hs : Reached c source s) (hmove : Move c s s') : Reached c source s'

/-! ## Groups and ordering -/

/-- The grouping and the ordering of a state are about its columns. -/
structure State.IsClosed (s : State) : Prop where
  groups : ∀ g ∈ s.groups, g ∈ s.columns
  order : ∀ key ∈ s.order, ∀ n ∈ key.columns, n ∈ s.columns

namespace State

variable {s : State}

theorem IsClosed.mono {s' : State} (h : s.IsClosed) (hgroups : s'.groups = s.groups)
    (horder : s'.order = s.order) (hcolumns : ∀ n ∈ s.columns, n ∈ s'.columns) : s'.IsClosed where
  groups := by
    rw [hgroups]
    exact fun g hg => hcolumns g (h.groups g hg)
  order := by
    rw [horder]
    exact fun key hkey n hn => hcolumns n (h.order key hkey n hn)

theorem columns_withBody (b : Body) (groups : List String) (order : List Expr) :
    State.columns { level := s.level.withBody b, groups, order } = b.outputs := by
  rw [columns, Level.outputs, Level.body_withBody]

theorem columns_wrap (name : String) : State.columns { s with level := s.level.wrap name } =
    s.columns :=
  Level.outputs_wrap s.level name

theorem columns_setItem (item : Item) (windowed : Bool) :
    State.columns
      { s with level := s.level.withBody { s.level.body.setItem item with windowed } } =
        withName s.columns item.name := by
  rw [columns_withBody]
  exact Body.outputs_setItem item

theorem columns_project {idents : List Ident} (h : ∀ i ∈ idents, i.name ∈ s.columns) :
    (s.project idents).columns = idents.map Ident.output := by
  rw [project, columns_withBody]
  exact Body.outputs_selected h

theorem IsClosed.project {idents : List Ident} (hnames : ∀ i ∈ idents, i.name ∈ s.columns)
    (hgroups : ∀ g ∈ s.groups, ∃ i ∈ idents, i.name = g) : (s.project idents).IsClosed where
  groups := by
    rw [columns_project hnames]
    intro g hg
    obtain ⟨group, hgroup, rfl⟩ := List.mem_map.1 hg
    rw [Relation.renamed_renames]
    exact Relation.followed_mem (hgroups group hgroup)
  order := by
    rw [columns_project hnames]
    intro key hkey n hn
    obtain ⟨kept, hkept, rfl⟩ := List.mem_map.1 hkey
    rw [Expr.rename, Expr.columns_mapColumns] at hn
    obtain ⟨name, hname, rfl⟩ := List.mem_map.1 hn
    have hselected := List.all_eq_true.1 (List.mem_filter.1 hkept).2 name hname
    obtain ⟨i, hi, hin⟩ := List.any_eq_true.1 hselected
    rw [Relation.renamed_renames]
    exact Relation.followed_mem ⟨i, hi, by simpa using hin⟩

end State

theorem IsEmulation.isClosed {s s' : State} {calls : List ExtractedCall}
    (h : IsEmulation c s calls s') (hs : s.IsClosed) : s'.IsClosed := by
  obtain ⟨added, hcolumns, _⟩ := h.columns
  have hmono : ∀ n ∈ s.columns, n ∈ s'.columns := by
    rw [hcolumns]
    exact fun n hn => List.mem_append_left _ hn
  cases h <;> exact hs.mono rfl rfl hmono

theorem Move.isClosed {s s' : State} (h : Move c s s') (hs : s.IsClosed) : s'.IsClosed := by
  cases h with
  | wrap name => exact hs.mono rfl rfl (by simp [State.columns_wrap])
  | restrict =>
      refine hs.mono rfl rfl ?_
      rw [State.columns_withBody]
      exact fun n hn => hn
  | compute name =>
      refine hs.mono rfl rfl fun n hn => ?_
      rw [State.columns_setItem]
      exact mem_withName hn name
  | project hnames hgroups => exact .project hnames hgroups
  | summarise => exact ⟨by simp, by simp⟩
  | emulate _ hemulation => exact hemulation.isClosed hs
  | arrange horder => exact ⟨hs.groups, horder⟩
  | regroup hgroups => exact ⟨hgroups, hs.order⟩

theorem Reached.isClosed {source : Source} {s : State} (h : Reached c source s) : s.IsClosed := by
  induction h with
  | start => exact ⟨by simp [State.ofSource], by simp [State.ofSource]⟩
  | move _ hmove ih => exact hmove.isClosed ih

end SqlChain
