import SqlChain.Compiler.Term
import SqlChain.Proofs.Building
import SqlChain.Proofs.Clauses

/-!
# Texts and the expressions they were compiled from

A level keeps an expression beside every text. Here is what has to hold for a text to be read as its
expression: the one was compiled from the other, without a window and without a join around it.
-/

namespace SqlChain

variable {c : Compiler}

structure Fragment.IsCompiled (c : Compiler) (f : Fragment) : Prop where
  window : f.window = none
  sql : ∃ warnings later, (c.compile .scalar f.expr).run.run warnings = (.ok f.sql, later)

def Item.IsCompiled (c : Compiler) (item : Item) : Prop :=
  match item.value with
  | .column side _ => side = none
  | .computed fragment => fragment.IsCompiled c
  | .rank _ => False

structure Body.IsCompiled (c : Compiler) (b : Body) : Prop where
  items : ∀ item ∈ b.items, item.IsCompiled c
  filters : ∀ filter ∈ b.filters, filter.IsCompiled c

def Level.IsCompiled (c : Compiler) : Level → Prop
  | .table _ _ body => body.IsCompiled c
  | .subquery inner _ body => inner.IsCompiled c ∧ body.IsCompiled c
  | .join .. => False

/-- Whether the item is an assignment as it stands in a level. -/
def Item.Computes (c : Compiler) (a : String × Expr) (item : Item) : Prop :=
  ∃ fragment : Fragment, fragment.IsCompiled c ∧ fragment.expr = a.2 ∧
    item = { name := a.1, value := .computed fragment }

theorem isCompiled_column (name : String) : (Item.column name).IsCompiled c := rfl

theorem ensures_compiling (c : Compiler) (e : Expr) :
    (BuildM.compiling (c.compile .scalar e)).Ensures fun sql =>
      Fragment.IsCompiled c { expr := e, window := none, sql } :=
  .compiling fun warnings _ later hrun => ⟨rfl, warnings, later, hrun⟩

theorem map_of_computes {β : Type} {f : Item → β} {g : String × Expr → β}
    {assignments : List (String × Expr)} {computed : List Item}
    (h : List.Forall₂ (Item.Computes c) assignments computed)
    (hf : ∀ a item, Item.Computes c a item → f item = g a) :
    computed.map f = assignments.map g := by
  induction h with
  | nil => rfl
  | cons hitem _ ih => rw [List.map_cons, List.map_cons, ih, hf _ _ hitem]

/-! ## Levels -/

namespace Level

variable {level : Level}

theorem IsCompiled.body (h : level.IsCompiled c) : level.body.IsCompiled c := by
  cases level with
  | table schema name body => exact h
  | subquery inner tableName body => exact h.2
  | join left right on body => exact h.elim

theorem IsCompiled.withBody (h : level.IsCompiled c) {b : Body} (hb : b.IsCompiled c) :
    (level.withBody b).IsCompiled c := by
  cases level with
  | table schema name body => exact hb
  | subquery inner tableName body => exact ⟨h.1, hb⟩
  | join left right on body => exact h

end Level

/-! ## Clauses -/

namespace Body

variable {b : Body}

theorem isCompiled_identity (columns : List String) : (identity columns).IsCompiled c where
  items := by
    intro item hitem
    obtain ⟨name, _, rfl⟩ := List.mem_map.1 hitem
    exact isCompiled_column name
  filters := by simp [identity]

theorem IsCompiled.filter (h : b.IsCompiled c) {filter : Fragment}
    (hfilter : filter.IsCompiled c) :
    IsCompiled c { b with filters := b.filters ++ [filter] } where
  items := h.items
  filters := List.forall_mem_append.2 ⟨h.filters, by simpa using hfilter⟩

theorem IsCompiled.setItem (h : b.IsCompiled c) (name : String) {fragment : Fragment}
    (hfragment : fragment.IsCompiled c) :
    (b.setItem { name, value := .computed fragment }).IsCompiled c where
  items := by
    intro item hitem
    rcases mem_putItem hitem with rfl | hitem
    · exact hfragment
    · exact h.items item hitem
  filters := h.filters

theorem IsCompiled.selected (h : b.IsCompiled c) (idents : List Ident) :
    IsCompiled c { b with items := b.selected idents } where
  items := by
    intro item hitem
    obtain ⟨found, hfound, hvalue⟩ := exists_of_mem_selected hitem
    have hcompiled := h.items found hfound
    rw [Item.IsCompiled] at hcompiled ⊢
    rwa [hvalue]
  filters := h.filters

/-- The clauses of a level that has a row for every group. -/
def summary (b : Body) (groups : List String) (computed : List Item) : Body :=
  { b with items := groups.map Item.column ++ computed, groupBy := groups, aggregated := true }

theorem IsCompiled.summary (h : b.IsCompiled c) (groups : List String)
    {assignments : List (String × Expr)} {computed : List Item}
    (hcomputed : List.Forall₂ (Item.Computes c) assignments computed) :
    (b.summary groups computed).IsCompiled c where
  items := by
    have hitems : ∀ item ∈ computed, item.IsCompiled c := by
      refine forall_of_forall₂ (hcomputed.imp ?_)
      rintro a item ⟨fragment, hfragment, _, rfl⟩
      exact hfragment
    refine List.forall_mem_append.2 ⟨?_, hitems⟩
    intro item hitem
    obtain ⟨group, _, rfl⟩ := List.mem_map.1 hitem
    exact isCompiled_column group
  filters := h.filters

end Body

end SqlChain
