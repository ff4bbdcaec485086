import SqlChain.Proofs.Chain.Move

/-!
# Names and what they stand for

A level is scoped if whatever is named in it is a column of what it reads, and if what is named of
a side is a column of that side. Every move keeps all levels of a nest scoped and spelled
(`Reached.isSound`).
-/

namespace SqlChain

variable {c : Compiler}

namespace Level

/-- The columns that can be named without a side. In a join these are the columns of the left
side. -/
def reads (source : Source) : Level → List String
  | .table _ _ _ => source.columns
  | .subquery inner _ _ => inner.outputs
  | .join left _ _ _ => left.outputs

/-- The columns that a star stands for. -/
def starColumns (source : Source) : Level → List String
  | .table _ _ _ => source.columns
  | .subquery inner _ _ => inner.outputs
  | .join left right _ _ => left.outputs ++ right.outputs

/-- Whether the level is a table other than the source. -/
def isForeign (source : Source) : Level → Bool
  | .table schema name _ => schema != source.schema || name != source.name
  | _ => false

/-- A side whose columns include the names. -/
def Provides (level : Level) (side : Side) (names : List String) : Prop :=
  ∃ inner, level.side? side = some inner ∧ ∀ n ∈ names, n ∈ inner.outputs

/-- Names without a side are for levels that have one source of rows. -/
def IsScopedItem (level : Level) (item : Item) : Prop :=
  match item.value with
  | .column none name => level.isJoin = false ∧ name ∈ level.body.inputs
  | .column (some side) name => level.Provides side [name]
  | .computed f => level.isJoin = false ∧ ∀ n ∈ f.columns, n ∈ level.body.inputs
  | .rank r => level.Provides .left (r.key.columns ++ r.groups)

structure IsScoped (source : Source) (level : Level) : Prop where
  isForeign : level.isForeign source = false
  inputs : level.body.inputs = level.reads source
  items : ∀ item ∈ level.body.items, level.IsScopedItem item
  filters : ∀ f ∈ level.body.filters, ∀ n ∈ f.columns, n ∈ level.body.inputs
  groupBy : ∀ g ∈ level.body.groupBy, g ∈ level.body.inputs
  matching : ∀ on ∈ level.matching?, ∀ side, level.Provides side on.groups

variable {source : Source} {level : Level}

@[simp] theorem reads_withBody (b : Body) : (level.withBody b).reads source = level.reads source := by
  cases level <;> rfl

@[simp] theorem isForeign_withBody (b : Body) :
    (level.withBody b).isForeign source = level.isForeign source := by
  cases level <;> rfl

theorem Provides.withBody {side : Side} {names : List String} (h : level.Provides side names)
    (b : Body) : (level.withBody b).Provides side names := by
  rw [Provides, side?_withBody]
  exact h

theorem IsScoped.withBody (h : level.IsScoped source) {b : Body}
    (hinputs : b.inputs = level.body.inputs) (hitems : ∀ item ∈ b.items, level.IsScopedItem item)
    (hfilters : ∀ f ∈ b.filters, ∀ n ∈ f.columns, n ∈ b.inputs)
    (hgroupBy : ∀ g ∈ b.groupBy, g ∈ b.inputs) : (level.withBody b).IsScoped source where
  isForeign := by rw [isForeign_withBody, h.isForeign]
  inputs := by rw [body_withBody, reads_withBody, hinputs, h.inputs]
  items := by
    rw [body_withBody]
    intro item hitem
    have hscoped := hitems item hitem
    rw [IsScopedItem] at hscoped ⊢
    rw [body_withBody, isJoin_withBody, hinputs]
    split
    · next hvalue => simpa [hvalue] using hscoped
    · next hvalue =>
        rw [hvalue] at hscoped
        exact hscoped.withBody b
    · next hvalue => simpa [hvalue] using hscoped
    · next hvalue =>
        rw [hvalue] at hscoped
        exact hscoped.withBody b
  filters := by rwa [body_withBody]
  groupBy := by rwa [body_withBody]
  matching := by
    rw [matching?_withBody]
    exact fun on hon side => (h.matching on hon side).withBody b

/-- What can be referred to in the clauses of a level is read by it. -/
theorem IsScoped.mem_inputs (h : level.IsScoped source) {names : List String}
    (href : level.body.canReference names = true) : ∀ n ∈ names, n ∈ level.body.inputs := by
  intro n hn
  obtain ⟨item, hitem, hvalue⟩ := Body.exists_of_canReference href hn
  have hscoped := h.items item (List.mem_of_find?_eq_some hitem)
  rw [IsScopedItem, hvalue] at hscoped
  exact hscoped.2

theorem isScoped_identity (hforeign : level.isForeign source = false)
    (hjoin : level.isJoin = false)
    (hbody : level.body = .identity (level.reads source)) : level.IsScoped source where
  isForeign := hforeign
  inputs := by rw [hbody, Body.identity]
  items := by
    rw [hbody]
    intro item hitem
    obtain ⟨name, hname, rfl⟩ := List.mem_map.1 hitem
    refine ⟨hjoin, ?_⟩
    rwa [hbody]
  filters := by simp [hbody, Body.identity]
  groupBy := by simp [hbody, Body.identity]
  matching := by
    cases level with
    | table | subquery => simp [matching?]
    | join => cases hjoin

/-! ## Stars -/

theorem items_of_selectsAll {b : Body} (h : b.selectsAll = true) :
    b.items = b.inputs.map Item.column := by
  rw [Body.selectsAll, Bool.and_eq_true, beq_iff_eq, List.all_eq_true] at h
  obtain ⟨hlength, hall⟩ := h
  refine List.ext_getElem (by simpa using hlength) fun i hi hj => ?_
  have hinput : i < b.inputs.length := by simpa using hj
  have hmem : (b.items[i], b.inputs[i]) ∈ b.items.zip b.inputs := by
    rw [List.mem_iff_getElem]
    exact ⟨i, by simp; omega, by simp⟩
  obtain ⟨hidentity, hname⟩ : b.items[i].isIdentity = true ∧ (b.items[i].name == b.inputs[i]) =
      true := Bool.and_eq_true_iff.1 (hall _ hmem)
  rw [Item.eq_column_of_isIdentity hidentity, List.getElem_map, beq_iff_eq.1 hname]

theorem two_le_length_quoteIdentifier {d : Dialect} {name text : String}
    (h : d.quoteIdentifier name = .ok text) : 2 ≤ text.length := by
  rw [Dialect.quoteIdentifier] at h
  dsimp only at h
  split at h
  · split at h
    · cases h
      simp
      omega
    · cases h
  · cases h
    simp
    omega

theorem two_le_length_quoteQualified {d : Dialect} {qualifier : Option String} {name text : String}
    (h : d.quoteQualified qualifier name = .ok text) : 2 ≤ text.length := by
  cases qualifier with
  | none => exact two_le_length_quoteIdentifier h
  | some qualifier =>
      obtain ⟨table, htable, h⟩ := exists_of_bind_eq_ok h
      obtain ⟨column, _, h⟩ := exists_of_bind_eq_ok h
      cases h
      have := two_le_length_quoteIdentifier htable
      simp only [String.length_append]
      omega

theorem two_le_length_renderItem {d : Dialect} {item : Item} {text : String}
    (h : item.render d = .ok text) : 2 ≤ text.length := by
  obtain ⟨quoted, hquoted, h⟩ := exists_of_bind_eq_ok h
  have hlength := two_le_length_quoteIdentifier hquoted
  cases hvalue : item.value with
  | column side source =>
      rw [hvalue] at h
      obtain ⟨column, hcolumn, h⟩ := exists_of_bind_eq_ok h
      have := two_le_length_quoteQualified hcolumn
      cases h
      split
      · assumption
      · simp only [String.length_append]
        omega
  | computed f | rank r =>
      rw [hvalue] at h
      cases h
      simp only [String.length_append]
      omega

/-- Only a list of all columns is written as a star, which is shorter than any item. -/
theorem selectsAll_of_renderItems {d : Dialect} {b : Body} (h : b.renderItems d = .ok "*") :
    b.selectsAll = true ∧ b.items ≠ [] := by
  rw [Body.renderItems] at h
  split at h
  · next hall => simpa using hall
  · obtain ⟨texts, htexts, h⟩ := exists_of_bind_eq_ok h
    have hlength := forall_of_mapM_eq_ok htexts fun item _ text => two_le_length_renderItem
    have hstar : ", ".intercalate texts = "*" := Except.ok.inj h
    have hone : (", ".intercalate texts).length = 1 := congrArg String.length hstar
    match texts, hlength, hone with
    | [], _, hone => cases hone
    | [text], hlength, hone =>
        rw [String.intercalate_singleton] at hone
        have := hlength text (by simp)
        omega
    | text :: other :: rest, hlength, hone =>
        rw [String.intercalate_cons_cons, String.length_append, String.length_append] at hone
        have := hlength text (by simp)
        omega

/-- A star stands for the columns of the level. -/
theorem IsScoped.starColumns (h : level.IsScoped source) (hall : level.body.selectsAll = true)
    (hitems : level.body.items ≠ []) : level.starColumns source = level.outputs := by
  have hcolumns := items_of_selectsAll hall
  have houtputs : level.outputs = level.body.inputs := by
    rw [outputs, Body.outputs, hcolumns, List.map_map]
    exact List.map_id level.body.inputs
  have hjoin : level.isJoin = false := by
    cases hinputs : level.body.inputs with
    | nil => exact absurd (by simp [hcolumns, hinputs]) hitems
    | cons name names =>
        have hitem := h.items (Item.column name) (by simp [hcolumns, hinputs])
        exact hitem.1
  rw [houtputs, h.inputs]
  cases level with
  | table | subquery => rfl
  | join => cases hjoin

end Level

/-! ## Moves -/

/-- A level in which all names and all texts are in order, and those of the levels within it. -/
def Level.IsSound (c : Compiler) (source : Source) (level : Level) : Prop :=
  ∀ inner ∈ level.nest, inner.IsScoped source ∧ inner.IsSpelled c

section

variable {source : Source}

namespace Level.IsSound

variable {level : Level}

theorem self (h : level.IsSound c source) : level.IsScoped source ∧ level.IsSpelled c :=
  h level level.mem_nest

theorem withBody (h : level.IsSound c source) {b : Body} (hinputs : b.inputs = level.body.inputs)
    (hitems : ∀ item ∈ b.items, level.IsScopedItem item ∧ level.IsSpelledItem c item)
    (hfilters : ∀ f ∈ b.filters, (∀ n ∈ f.columns, n ∈ b.inputs) ∧ f.IsSpelled c)
    (hgroupBy : ∀ g ∈ b.groupBy, g ∈ b.inputs) : (level.withBody b).IsSound c source := by
  intro inner hinner
  rcases Level.mem_nest_withBody hinner with rfl | hinner
  · refine ⟨h.self.1.withBody hinputs ?_ ?_ hgroupBy, h.self.2.withBody ?_ ?_⟩
    · exact fun item hitem => (hitems item hitem).1
    · exact fun f hf => (hfilters f hf).1
    · exact fun item hitem => (hitems item hitem).2
    · exact fun f hf => (hfilters f hf).2
  · exact h inner hinner

theorem item (h : level.IsSound c source) :
    ∀ item ∈ level.body.items, level.IsScopedItem item ∧ level.IsSpelledItem c item :=
  fun item hitem => ⟨h.self.1.items item hitem, h.self.2.items item hitem⟩

theorem filter (h : level.IsSound c source) : ∀ f ∈ level.body.filters,
    (∀ n ∈ f.columns, n ∈ level.body.inputs) ∧ f.IsSpelled c :=
  fun f hf => ⟨h.self.1.filters f hf, h.self.2.filters f hf⟩

end Level.IsSound

theorem isSound_ofSource (source : Source) : (Level.ofSource source).IsSound c source := by
  intro inner hinner
  cases List.mem_singleton.1 hinner
  refine ⟨Level.isScoped_identity (by simp [Level.isForeign]) rfl rfl, ?_⟩
  refine Level.isSpelled_of_columns ?_ rfl (by simp [Level.matching?])
  intro item hitem
  obtain ⟨name, _, rfl⟩ := List.mem_map.1 hitem
  exact ⟨none, name, rfl⟩

theorem isSound_subquery {level : Level} (h : level.IsSound c source) {tableName : String}
    {b : Body} (hscoped : (Level.subquery level tableName b).IsScoped source)
    (hspelled : (Level.subquery level tableName b).IsSpelled c) :
    (Level.subquery level tableName b).IsSound c source := by
  intro inner hinner
  rcases List.mem_cons.1 hinner with rfl | hinner
  · exact ⟨hscoped, hspelled⟩
  · exact h inner hinner

theorem isSound_wrap {level : Level} (h : level.IsSound c source) (tableName : String) :
    (level.wrap tableName).IsSound c source := by
  refine isSound_subquery h (Level.isScoped_identity rfl rfl rfl) ?_
  refine Level.isSpelled_of_columns ?_ rfl (by simp [Level.matching?])
  intro item hitem
  obtain ⟨name, _, rfl⟩ := List.mem_map.1 hitem
  exact ⟨none, name, rfl⟩

variable {s s' : State} {calls : List ExtractedCall}

/-- Ranks and columns of the left side, in a level with the left side `inner`. -/
theorem isScoped_left {level inner : Level} {text : String} {emulated : List Compiler.Emulated}
    (hside : level.side? .left = some inner)
    (hemulated : List.Forall₂ (Emulates c text s.groups) calls emulated)
    (hinner : inner.outputs = s.columns) (hclosed : s.IsClosed)
    (hcalls : ∀ x ∈ calls, ∀ n ∈ x.call.columns, n ∈ s.columns) :
    ∀ item, item ∈ s.columns.map (Item.ofSide .left) ∨
        item ∈ emulated.filterMap Compiler.Emulated.rank? → level.IsScopedItem item := by
  rintro item (hitem | hitem)
  · obtain ⟨name, hname, rfl⟩ := List.mem_map.1 hitem
    exact ⟨inner, hside, by simpa [hinner] using hname⟩
  · obtain ⟨x, hx, r, rfl, _, hgroups, hcolumns⟩ := exists_of_mem_ranks hemulated hitem
    refine ⟨inner, hside, List.forall_mem_append.2 ⟨?_, ?_⟩⟩
    · rw [hinner]
      exact fun n hn => hcalls x hx n (hcolumns n hn)
    · rw [hinner, hgroups]
      exact hclosed.groups

/-- The groups of a level with an aggregate for every call. -/
theorem isScoped_aggregates (hclosed : s.IsClosed)
    (hcalls : ∀ x ∈ calls, ∀ n ∈ x.call.columns, n ∈ s.columns) {text : String}
    {emulated : List Compiler.Emulated}
    (hemulated : List.Forall₂ (Emulates c text s.groups) calls emulated) (tableName : String) :
    (Level.subquery s.level tableName ((Body.identity s.columns).summary s.groups
      (emulated.filterMap Compiler.Emulated.aggregate?))).IsScoped source := by
  have hidentity : (s.level.wrap tableName).IsScoped source := Level.isScoped_identity rfl rfl rfl
  refine hidentity.withBody rfl ?_ (by simp [Body.summary, Body.identity]) hclosed.groups
  refine List.forall_mem_append.2 ⟨fun item hitem => ?_, fun item hitem => ?_⟩
  · obtain ⟨group, hgroup, rfl⟩ := List.mem_map.1 hitem
    exact ⟨rfl, hclosed.groups group hgroup⟩
  · obtain ⟨x, hx, sql, rfl, _⟩ := exists_of_mem_aggregates hemulated hitem
    refine ⟨rfl, fun n hn => hcalls x hx n ?_⟩
    simpa [Fragment.columns] using hn

theorem isScoped_join {level right : Level} {on : Matching} {text : String}
    {emulated : List Compiler.Emulated}
    (hemulated : List.Forall₂ (Emulates c text s.groups) calls emulated) (hclosed : s.IsClosed)
    (hcalls : ∀ x ∈ calls, ∀ n ∈ x.call.columns, n ∈ s.columns)
    (hlevel : level = .join s.level right on
      { Body.identity s.columns with
        items := s.columns.map (Item.ofSide .left) ++
          (emulated.filterMap Compiler.Emulated.aggregate?).map
            (fun item => Item.ofSide .right item.name) ++
          emulated.filterMap Compiler.Emulated.rank? })
    (haggregates : ∀ item ∈ emulated.filterMap Compiler.Emulated.aggregate?,
      item.name ∈ right.outputs)
    (hgroups : ∀ g ∈ s.groups, g ∈ right.outputs) (hon : c.matching s.groups = .ok on) :
    level.IsScoped source := by
  have hleft : level.side? .left = some s.level := by rw [hlevel, Level.side?]
  have hitems : ∀ item ∈ level.body.items, level.IsScopedItem item := by
    intro item hitem
    rw [hlevel] at hitem
    rcases List.mem_append.1 hitem with hitem | hitem
    · rcases List.mem_append.1 hitem with hitem | hitem
      · exact isScoped_left hleft hemulated rfl hclosed hcalls item (.inl hitem)
      · obtain ⟨aggregate, haggregate, rfl⟩ := List.mem_map.1 hitem
        refine ⟨right, by rw [hlevel, Level.side?], ?_⟩
        simpa using haggregates aggregate haggregate
    · exact isScoped_left hleft hemulated rfl hclosed hcalls item (.inr hitem)
  have honGroups := Compiler.groups_of_matching hon
  subst hlevel
  refine ⟨rfl, rfl, hitems, by simp [Level.body, Body.identity],
    by simp [Level.body, Body.identity], ?_⟩
  rintro _ ⟨⟩ (_ | _)
  · exact ⟨s.level, rfl, honGroups ▸ hclosed.groups⟩
  · exact ⟨right, rfl, honGroups ▸ hgroups⟩

theorem isScoped_emulation (h : ∀ inner ∈ s.level.nest, inner.IsScoped source)
    (hclosed : s.IsClosed) (hcalls : ∀ x ∈ calls, ∀ n ∈ x.call.columns, n ∈ s.columns)
    (hemulation : IsEmulation c s calls s') :
    ∀ inner ∈ s'.level.nest, inner.IsScoped source := by
  intro inner hinner
  cases hemulation with
  | @ranks text emulated hsource hemulated hnone =>
      rcases List.mem_cons.1 hinner with rfl | hinner
      · have hidentity : (s.level.wrap Side.left.tableName).IsScoped source :=
          Level.isScoped_identity rfl rfl rfl
        refine hidentity.withBody rfl ?_ (by simp [Body.identity]) (by simp [Body.identity])
        intro item hitem
        exact isScoped_left (by simp [Level.wrap, Level.side?]) hemulated rfl hclosed hcalls item
          (List.mem_append.1 hitem)
      · exact h inner hinner
  | @joined text name emulated on hsource hemulated hon =>
      rcases List.mem_cons.1 hinner with rfl | hinner
      · refine isScoped_join hemulated hclosed hcalls rfl (fun item hitem => ?_) (fun g hg => ?_) hon
        · exact List.mem_map_of_mem (List.mem_append_right _ hitem)
        · exact List.mem_map.2 ⟨.column g, List.mem_append_left _ (List.mem_map_of_mem hg), rfl⟩
      · rcases List.mem_append.1 hinner with hinner | hinner
        · exact h inner hinner
        · rcases List.mem_cons.1 hinner with rfl | hinner
          · exact isScoped_aggregates hclosed hcalls hemulated name
          · exact h inner hinner

theorem isSound_emulation (h : s.level.IsSound c source) (hclosed : s.IsClosed)
    (hcalls : ∀ x ∈ calls, ∀ n ∈ x.call.columns, n ∈ s.columns)
    (hemulation : IsEmulation c s calls s') : s'.level.IsSound c source := by
  intro inner hinner
  refine ⟨?_, ?_⟩
  · exact isScoped_emulation (fun inner hinner => (h inner hinner).1) hclosed hcalls hemulation
      inner hinner
  · rcases hemulation.isSpelled inner hinner with hinner | hspelled
    · exact (h inner hinner).2
    · exact hspelled

theorem Move.isSound (hmove : Move c s s') (hclosed : s.IsClosed)
    (h : s.level.IsSound c source) : s'.level.IsSound c source := by
  cases hmove with
  | wrap name => exact isSound_wrap h name
  | restrict _ _ _ href _ hspelled =>
      refine h.withBody rfl h.item ?_ h.self.1.groupBy
      refine List.forall_mem_append.2 ⟨h.filter, fun filter hfilter => ?_⟩
      cases List.mem_singleton.1 hfilter
      exact ⟨h.self.1.mem_inputs href, hspelled⟩
  | compute name _ hjoin href _ hspelled =>
      refine h.withBody rfl ?_ h.filter h.self.1.groupBy
      intro item hitem
      rcases Body.mem_putItem hitem with rfl | hitem
      · exact ⟨⟨hjoin, h.self.1.mem_inputs href⟩, hspelled⟩
      · exact h.item item hitem
  | project =>
      refine h.withBody rfl ?_ h.filter h.self.1.groupBy
      intro item hitem
      obtain ⟨found, hfound, hvalue⟩ := Body.exists_of_mem_selected hitem
      have hsound := h.item found hfound
      rw [Level.IsScopedItem, Level.IsSpelledItem] at hsound ⊢
      rwa [hvalue]
  | @summarise computed hplain hcomputed =>
      simp only [Level.isPlain, Bool.and_eq_true, Bool.not_eq_true'] at hplain
      obtain ⟨⟨_, hjoin⟩, hidentity⟩ := hplain
      -- all columns of a plain level can be referred to, so they are columns that it reads
      have hinputs := h.self.1.mem_inputs (Body.canReference_outputs hidentity fun n hn => hn)
      refine h.withBody rfl ?_ h.filter fun g hg => hinputs g (hclosed.groups g hg)
      refine List.forall_mem_append.2 ⟨fun item hitem => ?_, fun item hitem => ?_⟩
      · obtain ⟨group, hgroup, rfl⟩ := List.mem_map.1 hitem
        exact ⟨⟨hjoin, hinputs group (hclosed.groups group hgroup)⟩, True.intro⟩
      · obtain ⟨f, hvalue, _, hspelled, hcolumns⟩ := hcomputed item hitem
        rw [Level.IsScopedItem, Level.IsSpelledItem, hvalue]
        exact ⟨⟨hjoin, fun n hn => hinputs n (hcolumns n hn)⟩, hspelled⟩
  | emulate hcalls hemulation => exact isSound_emulation h hclosed hcalls hemulation
  | arrange => exact h
  | regroup => exact h

theorem Reached.isSound (h : Reached c source s) : s.level.IsSound c source := by
  induction h with
  | start => exact isSound_ofSource source
  | move hs hmove ih => exact hmove.isSound hs.isClosed ih

/-- Every name in the levels of a state stands for a column that is there, and so do the names in its
grouping and its ordering. A star stands for the columns of its level. -/
structure State.IsScoped (c : Compiler) (source : Source) (s : State) : Prop where
  closed : s.IsClosed
  levels : s.level.IsSound c source
  stars : ∀ level ∈ s.level.nest, level.body.renderItems c.dialect = .ok "*" →
    level.starColumns source = level.outputs

theorem Reached.isScoped (h : Reached c source s) : s.IsScoped c source where
  closed := h.isClosed
  levels := h.isSound
  stars := by
    intro level hlevel hstar
    obtain ⟨hall, hitems⟩ := Level.selectsAll_of_renderItems hstar
    exact (h.isSound level hlevel).1.starColumns hall hitems

end

end SqlChain
