import SqlChain.Proofs.Chain.Move

/-!
# Where windows stand

A level that has a window says so. Predicates have none, since a window sees the rows that are left
by them.
-/

namespace SqlChain

variable {c : Compiler}

def Item.IsWindowless (item : Item) : Prop := ∀ f, item.value = .computed f → f.window = none

theorem isWindowless_column (side : Option Side) (name source : String) :
    Item.IsWindowless { name, value := .column side source } := by
  rintro f ⟨⟩

/-- Whether the clauses have windows only where they say so. -/
structure Body.MarksWindows (b : Body) : Prop where
  items : b.windowed = false → ∀ item ∈ b.items, item.IsWindowless
  filters : ∀ f ∈ b.filters, f.window = none

theorem Body.marksWindows_of_items {b : Body} (hitems : ∀ item ∈ b.items, item.IsWindowless)
    (hfilters : b.filters = []) : b.MarksWindows :=
  ⟨fun _ => hitems, by simp [hfilters]⟩

theorem Body.isWindowless_identity {columns : List String} :
    ∀ item ∈ (Body.identity columns).items, item.IsWindowless := by
  intro item hitem
  obtain ⟨name, _, rfl⟩ := List.mem_map.1 hitem
  exact isWindowless_column none name name

section

variable {source : String} {groups : List String} {calls : List ExtractedCall}
  {emulated : List Compiler.Emulated}

theorem isWindowless_aggregates (h : List.Forall₂ (Emulates c source groups) calls emulated) :
    ∀ item ∈ emulated.filterMap Compiler.Emulated.aggregate?, item.IsWindowless := by
  intro item hitem
  obtain ⟨x, _, sql, rfl, _⟩ := exists_of_mem_aggregates h hitem
  rintro f ⟨⟩
  rfl

theorem isWindowless_ranks (h : List.Forall₂ (Emulates c source groups) calls emulated) :
    ∀ item ∈ emulated.filterMap Compiler.Emulated.rank?, item.IsWindowless := by
  intro item hitem
  obtain ⟨x, _, r, rfl, _⟩ := exists_of_mem_ranks h hitem
  rintro f ⟨⟩

end

theorem isWindowless_sides (side : Side) (columns : List String) :
    ∀ item ∈ columns.map (Item.ofSide side), item.IsWindowless := by
  intro item hitem
  obtain ⟨name, _, rfl⟩ := List.mem_map.1 hitem
  exact isWindowless_column (some side) name name

theorem IsEmulation.isWindowless {s s' : State} {calls : List ExtractedCall}
    (h : IsEmulation c s calls s') : ∀ item ∈ s'.level.body.items, item.IsWindowless := by
  cases h with
  | ranks _ hemulated _ =>
      exact List.forall_mem_append.2
        ⟨isWindowless_sides .left s.columns, isWindowless_ranks hemulated⟩
  | @joined _ _ emulated _ _ hemulated _ =>
      refine List.forall_mem_append.2 ⟨List.forall_mem_append.2 ⟨?_, ?_⟩, ?_⟩
      · exact isWindowless_sides .left s.columns
      · intro item hitem
        obtain ⟨aggregate, _, rfl⟩ := List.mem_map.1 hitem
        exact isWindowless_column (some .right) aggregate.name aggregate.name
      · exact isWindowless_ranks hemulated

/-! ## Moves -/

theorem Move.marksWindows {s s' : State} (hmove : Move c s s') (h : s.level.body.MarksWindows) :
    s'.level.body.MarksWindows := by
  cases hmove with
  | wrap name => exact Body.marksWindows_of_items Body.isWindowless_identity rfl
  | restrict _ _ _ _ hwindow =>
      rw [Level.body_withBody]
      exact ⟨h.items, List.forall_mem_append.2 ⟨h.filters, by simpa using hwindow⟩⟩
  | @compute f name =>
      rw [Level.body_withBody]
      refine ⟨fun hwindowed item hitem => ?_, h.filters⟩
      obtain ⟨hold, hnew⟩ := Bool.or_eq_false_iff.1 hwindowed
      rcases Body.mem_putItem hitem with rfl | hitem
      · rintro _ ⟨⟩
        simpa using hnew
      · exact h.items hold item hitem
  | project =>
      rw [State.project, Level.body_withBody]
      refine ⟨fun hwindowed item hitem => ?_, h.filters⟩
      obtain ⟨found, hfound, hvalue⟩ := Body.exists_of_mem_selected hitem
      rw [Item.IsWindowless, hvalue]
      exact h.items hwindowed found hfound
  | summarise hplain hcomputed =>
      rw [Level.body_withBody]
      refine ⟨fun _ => List.forall_mem_append.2 ⟨?_, fun item hitem => ?_⟩, h.filters⟩
      · intro item hitem
        obtain ⟨group, _, rfl⟩ := List.mem_map.1 hitem
        exact isWindowless_column none group group
      · obtain ⟨f, hvalue, hwindow, _⟩ := hcomputed item hitem
        intro g hg
        cases hvalue.symm.trans hg
        exact hwindow
  | emulate _ hemulation =>
      refine Body.marksWindows_of_items hemulation.isWindowless ?_
      cases hemulation <;> rfl
  | arrange => exact h
  | regroup => exact h

theorem Reached.marksWindows {source : Source} {s : State} (h : Reached c source s) :
    s.level.body.MarksWindows := by
  induction h with
  | start => exact Body.marksWindows_of_items Body.isWindowless_identity rfl
  | move _ hmove ih => exact hmove.marksWindows ih

end SqlChain
