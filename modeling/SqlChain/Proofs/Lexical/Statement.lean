import SqlChain.Proofs.Composition
import SqlChain.Proofs.Lexical.Compile
import SqlChain.Query.Render

/-!
# Whole statements

A level is sound if every text that was compiled into it is closed, at every depth. Every operation
of a chain keeps the level sound, and a sound level is rendered to a closed text. With the words of
the clauses and the ordering around it the statement leaves nothing open.
-/

namespace SqlChain.Lexical

/-! ## Levels -/

def IsSoundItem (d : Dialect) (item : Item) : Prop :=
  match item.value with
  | .column _ _ => True
  | .computed f => IsClosed d f.sql
  | .rank r => IsClosed d r.sql

structure IsSoundBody (d : Dialect) (b : Body) : Prop where
  items : ∀ item ∈ b.items, IsSoundItem d item
  filters : ∀ f ∈ b.filters, IsClosed d f.sql

def IsSoundLevel (d : Dialect) : Level → Prop
  | .table _ _ body => IsSoundBody d body
  | .subquery inner _ body => IsSoundLevel d inner ∧ IsSoundBody d body
  | .join left right on body =>
    IsSoundLevel d left ∧ IsSoundLevel d right ∧ IsClosed d on.sql ∧ IsSoundBody d body

variable {d : Dialect}

theorem IsSoundLevel.body {level : Level} (h : IsSoundLevel d level) :
    IsSoundBody d level.body := by
  cases level with
  | table schema name body => exact h
  | subquery inner tableName body => exact h.2
  | join left right on body => exact h.2.2.2

theorem IsSoundLevel.withBody {level : Level} (h : IsSoundLevel d level) {body : Body}
    (hbody : IsSoundBody d body) : IsSoundLevel d (level.withBody body) := by
  cases level with
  | table schema name _ => exact hbody
  | subquery inner tableName _ => exact ⟨h.1, hbody⟩
  | join left right on _ => exact ⟨h.1, h.2.1, h.2.2.1, hbody⟩

theorem isSoundBody_identity (columns : List String) : IsSoundBody d (.identity columns) where
  items := by
    intro item hitem
    obtain ⟨name, _, rfl⟩ := List.mem_map.1 hitem
    exact True.intro
  filters := by simp [Body.identity]

/-- Every level within a sound one is put together of closed texts. -/
theorem IsSoundLevel.isPutTogether {level : Level} (h : IsSoundLevel d level) :
    ∀ inner ∈ level.nest, inner.IsPutTogether d (IsClosed d) := by
  have htogether : ∀ {level : Level}, IsSoundBody d level.body →
      (∀ on ∈ level.matching?, IsClosed d on.sql) → level.IsPutTogether d (IsClosed d) := by
    intro level hbody hmatching
    refine ⟨fun item hitem f hf => ?_, fun item hitem r hr _ => ?_, hbody.filters, hmatching⟩
    · have hsound := hbody.items item hitem
      rwa [IsSoundItem, hf] at hsound
    · have hsound := hbody.items item hitem
      rwa [IsSoundItem, hr] at hsound
  induction level with
  | table schema name body => exact List.forall_mem_singleton.2 (htogether h (by rintro _ ⟨⟩))
  | subquery inner tableName body ih =>
      exact List.forall_mem_cons.2 ⟨htogether h.body (by rintro _ ⟨⟩), ih h.1⟩
  | join left right on body ihl ihr =>
      obtain ⟨hleft, hright, hon, hbody⟩ := h
      refine List.forall_mem_cons.2 ⟨htogether hbody ?_, ?_⟩
      · rintro _ ⟨⟩
        exact hon
      · exact List.forall_mem_append.2 ⟨ihl hleft, ihr hright⟩

/-! ## Levels as text -/

/-- Closed texts are put together to closed texts. -/
theorem composes_isClosed (h : IsReadable d) : Composes d (IsClosed d) where
  empty := (IsTail.empty d).isClosed
  one := (h.word (by decide)).isClosed
  name := isClosed_quoteQualified h
  join := by
    have hclauses : ∀ clause ∈ connectives, isWord 0 clause 0 = true := by decide
    exact fun clause hclause _ _ hs ht => hs.join (h.word (hclauses clause hclause)) ht
  parenthesised hs := (isFree_parenthesised h.toHasQuotes hs).isClosed
  isNull hs := hs.append_tail (h.word (by decide)).isTail
  countAll := (h.word (by decide)).isClosed
  countDistinct hs := (h.enclose (by decide) hs (by decide)).isClosed
  select hs := ((h.word (by decide)).append_closed hs).isClosed
  selectAll hs := ((h.word (by decide)).append_closed hs).isClosed

/-- What is sound is closed as a text. -/
theorem isClosed_render (h : IsReadable d) {level : Level} (hlevel : IsSoundLevel d level)
    {sql : String} (hsql : level.render d = .ok sql) : IsClosed d sql :=
  (composes_isClosed h).render hlevel.isPutTogether hsql

end SqlChain.Lexical
