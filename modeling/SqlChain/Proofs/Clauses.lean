import SqlChain.Level.Basic
import SqlChain.Ident

/-!
# Clauses and their columns

What a level can refer to, and which columns it has after an item was put into it or after some of
its items were selected.
-/

namespace SqlChain

/-- The names with this one, behind all others if it is new. -/
def withName (columns : List String) (name : String) : List String :=
  if name ∈ columns then columns else columns ++ [name]

theorem mem_withName {columns : List String} {n : String} (h : n ∈ columns) (name : String) :
    n ∈ withName columns name := by
  rw [withName]
  split
  · exact h
  · exact List.mem_append_left _ h

theorem self_mem_withName (columns : List String) (name : String) : name ∈ withName columns name := by
  rw [withName]
  split
  · next h => exact h
  · exact List.mem_append_right _ (List.mem_singleton_self name)

theorem mem_withName_iff {columns : List String} {n name : String} :
    n ∈ withName columns name ↔ n ∈ columns ∨ n = name := by
  rw [withName]
  split
  · next h => exact ⟨.inl, fun hn => hn.elim id fun heq => heq ▸ h⟩
  · rw [List.mem_append, List.mem_singleton]

theorem nodup_withName {columns : List String} (h : columns.Nodup) (name : String) :
    (withName columns name).Nodup := by
  rw [withName]
  split
  · exact h
  · next hname =>
      refine List.nodup_append.2 ⟨h, by simp, ?_⟩
      rintro n hn _ hm rfl
      exact hname (List.mem_singleton.1 hm ▸ hn)

theorem Item.eq_column_of_isIdentity {item : Item} (h : item.isIdentity = true) :
    item = Item.column item.name := by
  rw [Item.isIdentity] at h
  split at h
  · next name hvalue =>
      have hname : item.name = name := (beq_iff_eq.1 h).symm
      rw [Item.column, hname, ← hvalue, ← hname]
  · cases h

namespace Body

variable {b : Body}

/-! ## References to columns -/

theorem exists_item? {name : String} (h : name ∈ b.outputs) :
    ∃ item, b.item? name = some item := by
  obtain ⟨item, hitem, hname⟩ := List.mem_map.1 h
  refine Option.isSome_iff_exists.1 (List.find?_isSome.2 ⟨item, hitem, ?_⟩)
  simpa using hname

theorem exists_of_canReference {names : List String}
    (h : b.canReference names = true) {name : String} (hname : name ∈ names) :
    ∃ item, b.item? name = some item ∧ item.value = .column none name := by
  rw [canReference, List.all_eq_true] at h
  obtain ⟨item, hitem, hidentity⟩ := (Option.any_eq_true _ _).1 (h name hname)
  have hitemName : item.name = name := by simpa using List.find?_some hitem
  refine ⟨item, hitem, ?_⟩
  rw [Item.eq_column_of_isIdentity hidentity, hitemName]
  rfl

theorem canReference_outputs (h : b.items.all Item.isIdentity = true) {names : List String}
    (hnames : ∀ n ∈ names, n ∈ b.outputs) : b.canReference names = true := by
  rw [canReference, List.all_eq_true]
  intro n hn
  obtain ⟨item, hitem⟩ := exists_item? (hnames n hn)
  rw [hitem]
  exact List.all_eq_true.1 h item (List.mem_of_find?_eq_some hitem)

theorem canReference_identity {columns names : List String} (h : ∀ n ∈ names, n ∈ columns) :
    (identity columns).canReference names = true := by
  refine canReference_outputs ?_ ?_
  · simp [identity]
  · rwa [outputs_identity]

/-! ## Items -/

theorem outputs_putItem (item : Item) (items : List Item) :
    (putItem item items).map (·.name) = withName (items.map (·.name)) item.name := by
  rw [withName]
  induction items with
  | nil => simp [putItem]
  | cons other rest ih =>
      rw [putItem]
      split
      · next h => simp [h]
      · next h =>
          rw [List.map_cons, ih, List.map_cons]
          have hne : item.name ≠ other.name := Ne.symm h
          by_cases hmem : item.name ∈ rest.map (·.name)
          · simp only [hmem, List.mem_cons, or_true, if_true]
          · simp only [hmem, List.mem_cons, hne, or_self, if_false, List.cons_append]

theorem outputs_setItem (item : Item) :
    (b.setItem item).outputs = withName b.outputs item.name :=
  outputs_putItem item b.items

theorem find?_putItem (item : Item) (items : List Item) (name : String) :
    (putItem item items).find? (·.name == name) =
      if name = item.name then some item else items.find? (·.name == name) := by
  induction items with
  | nil =>
      rw [putItem, List.find?_cons]
      by_cases h : name = item.name
      · simp [h]
      · rw [if_neg h, beq_false_of_ne (Ne.symm h)]
  | cons other rest ih =>
      rw [putItem]
      split
      · next hother =>
          rw [List.find?_cons, List.find?_cons, hother]
          by_cases h : name = item.name
          · simp [h]
          · rw [if_neg h, beq_false_of_ne (Ne.symm h)]
      · next hother =>
          rw [List.find?_cons, List.find?_cons, ih]
          by_cases h : other.name = name
          · subst h
            simp [hother]
          · rw [beq_false_of_ne h]

theorem item?_setItem (item : Item) (name : String) :
    (b.setItem item).item? name = if name = item.name then some item else b.item? name :=
  find?_putItem item b.items name

theorem mem_putItem {item other : Item} {items : List Item} (h : other ∈ putItem item items) :
    other = item ∨ other ∈ items := by
  induction items with
  | nil => exact .inl (List.mem_singleton.1 h)
  | cons first rest ih =>
      rw [putItem] at h
      split at h
      · rcases List.mem_cons.1 h with rfl | h
        · exact .inl rfl
        · exact .inr (List.mem_cons_of_mem _ h)
      · rcases List.mem_cons.1 h with rfl | h
        · exact .inr List.mem_cons_self
        · exact (ih h).imp_right (List.mem_cons_of_mem _)

/-! ## Selections -/

/-- The items that a selection leaves. -/
def selected (b : Body) (idents : List Ident) : List Item :=
  idents.filterMap fun i => (b.item? i.name).map fun item => { item with name := i.output }

theorem exists_of_mem_selected {idents : List Ident} {item : Item}
    (h : item ∈ b.selected idents) : ∃ found ∈ b.items, item.value = found.value := by
  obtain ⟨i, _, hmap⟩ := List.mem_filterMap.1 h
  obtain ⟨found, hfound, rfl⟩ := Option.map_eq_some_iff.1 hmap
  exact ⟨found, List.mem_of_find?_eq_some hfound, rfl⟩

/-- What is read off the items of a selection can be read off the selected columns. -/
theorem map_selected {β : Type} {f : Item → β} {g : Ident → β} {idents : List Ident}
    (h : ∀ i ∈ idents, i.name ∈ b.outputs)
    (hf : ∀ i item, b.item? i.name = some item → f { item with name := i.output } = g i) :
    (b.selected idents).map f = idents.map g := by
  induction idents with
  | nil => rfl
  | cons i rest ih =>
      obtain ⟨item, hitem⟩ := exists_item? (h i List.mem_cons_self)
      have hrest := ih fun j hj => h j (List.mem_cons_of_mem _ hj)
      have hcons : b.selected (i :: rest) = { item with name := i.output } :: b.selected rest := by
        simp [selected, hitem]
      rw [hcons, List.map_cons, List.map_cons, hrest, hf i item hitem]

theorem outputs_selected {idents : List Ident} (h : ∀ i ∈ idents, i.name ∈ b.outputs) :
    (b.selected idents).map (·.name) = idents.map Ident.output :=
  map_selected h fun _ _ _ => rfl

end Body

end SqlChain
