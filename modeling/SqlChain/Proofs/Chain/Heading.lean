import SqlChain.Proofs.Chain.Ordering
import SqlChain.Proofs.Clauses
import SqlChain.Proofs.Meaning.Relation
import SqlChain.Query.Render

/-!
# Headings

What the operations of a chain say by themselves of its columns, its grouping and its ordering. No
dialect and no statement is asked for.
-/

namespace SqlChain

structure Heading where
  columns : List String
  groups : List String
  order : List Expr
  /-- The keys of earlier orderings that were lost with their columns. -/
  dropped : List Expr

namespace Heading

def ofSource (source : Source) : Heading :=
  { columns := source.columns, groups := [], order := [], dropped := [] }

/-- The grouping columns that a selection leaves out. -/
def missing (h : Heading) (idents : List Ident) : List String :=
  h.groups.filter fun group => !idents.any (·.name == group)

/-- Whether the columns of a key are grouped by or selected. -/
def keeps (h : Heading) (idents : List Ident) (key : Expr) : Bool :=
  key.columns.all fun name => h.groups.contains name || idents.any (·.name == name)

/-- Missing grouping columns come first. -/
def select (h : Heading) (idents : List Ident) : Heading where
  columns := h.missing idents ++ idents.map Ident.output
  groups := h.groups.map (Relation.followed idents)
  order := (h.order.filter (h.keeps idents)).map (Expr.mapColumns (Relation.followed idents))
  dropped := h.dropped ++ h.order.filter fun key => !h.keeps idents key

/-- Every name is replaced where it stands. -/
def rename (h : Heading) (pairs : List (String × String)) : Heading :=
  { h with
    columns := h.columns.map (Expr.renamed pairs)
    groups := h.groups.map (Expr.renamed pairs)
    order := h.order.map (Expr.rename pairs) }

def assign (h : Heading) (name : String) : Heading :=
  { h with columns := withName h.columns name }

def summarise (h : Heading) (names : List String) : Heading :=
  { h with columns := h.groups ++ names, groups := [], order := [] }

def apply (h : Heading) : Op → Heading
  | .select idents => h.select idents
  | .rename pairs => h.rename pairs
  | .filter _ => h
  | .mutate assignments => assignments.foldl (fun h a => h.assign a.1) h
  | .summarise assignments => h.summarise (assignments.map Prod.fst)
  | .arrange keys => { h with order := keys }
  | .groupBy keys add => { h with groups := Compiler.addNew (if add then h.groups else []) keys }
  | .ungroup => { h with groups := [] }

/-- The grouping columns before all others, and the rows in their order before all else. -/
def grouped (h : Heading) : Heading :=
  { h with
    columns := h.groups ++ h.columns.filter fun name => !h.groups.contains name
    order := h.groups.map Expr.column ++ firstOccurrences (h.groups.map Expr.column) h.order }

/-- The grouping columns alone. -/
def labelled (h : Heading) : Heading :=
  { h with columns := h.groups, order := h.groups.map Expr.column }

/-- The heading of a statement for a chain that ends with this one. -/
def shown (h : Heading) : Mode → Heading
  | .plain => h
  | .groups => if h.groups.isEmpty then h else h.grouped
  | .labels => h.labelled

theorem groups_shown (h : Heading) (mode : Mode) : (h.shown mode).groups = h.groups := by
  cases mode with
  | plain | labels => rfl
  | groups =>
      rw [shown]
      split <;> rfl

end Heading

namespace Query

def heading (q : Query) : Heading := q.ops.foldl Heading.apply (.ofSource q.source)

end Query

/-! ## Selections -/

namespace Relation

/-- Grouping columns that are put in front keep their names. -/
theorem followed_ofName_append (names : List String) (idents : List Ident) :
    followed (names.map Ident.ofName ++ idents) = followed idents := by
  funext name
  have hnone : (names.map Ident.ofName).findSome? (fun i =>
      if i.name = name then i.newName else none) = none := by
    rw [List.findSome?_eq_none_iff]
    intro i hi
    obtain ⟨n, _, rfl⟩ := List.mem_map.1 hi
    exact ite_self none
  rw [followed, List.findSome?_append, hnone]
  rfl

end Relation

namespace State

/-- The heading of a state, with the keys that were dropped on the way to it. -/
structure Follows (s : State) (remarks : List Warning) (h : Heading) : Prop where
  columns : s.columns = h.columns
  groups : s.groups = h.groups
  order : s.order = h.order
  remarks : remarks = h.dropped.map Warning.orderingDropped

theorem any_withGroups (s : State) (idents : List Ident) (name : String) :
    (s.withGroups idents).any (·.name == name) =
      (s.groups.contains name || idents.any (·.name == name)) := by
  rw [withGroups, List.any_append, List.any_map]
  cases hselected : idents.any (·.name == name) with
  | true => simp
  | false =>
      rw [Bool.or_false, Bool.or_false, Bool.eq_iff_iff]
      simp only [List.any_eq_true, List.mem_filter, Function.comp_apply, beq_iff_eq,
        List.contains_iff_mem]
      constructor
      · rintro ⟨g, ⟨hg, _⟩, rfl⟩
        exact hg
      · exact fun hg => ⟨name, ⟨hg, by rw [hselected]; rfl⟩, rfl⟩

theorem isKept_withGroups (s : State) (idents : List Ident) :
    isKept (s.withGroups idents) =
      fun key => key.columns.all fun name =>
        s.groups.contains name || idents.any (·.name == name) := by
  funext key
  exact congrArg key.columns.all (funext (any_withGroups s idents))

theorem renamed_withGroups (s : State) (idents : List Ident) (name : String) :
    Expr.renamed (renames (s.withGroups idents)) name = Relation.followed idents name := by
  rw [Relation.renamed_renames, withGroups, Relation.followed_ofName_append]

theorem rename_withGroups (s : State) (idents : List Ident) :
    Expr.rename (renames (s.withGroups idents)) = Expr.mapColumns (Relation.followed idents) := by
  funext key
  exact congrArg (Expr.mapColumns · key) (funext (renamed_withGroups s idents))

end State

/-! ## Renamings -/

namespace Expr

mutual

theorem mapColumns_congr {f g : String → String} :
    ∀ e : Expr, (∀ n ∈ e.columns, f n = g n) → e.mapColumns f = e.mapColumns g
  | .column name, h => congrArg Expr.column (h name (by simp [columns]))
  | .literal _, _ => rfl
  | .call function args window, h => by
    rw [mapColumns, mapColumns, mapColumnsOfArgs_congr args h]
  | .conditional condition value none, h => by
    have hc := mapColumns_congr condition fun n hn => h n (by simp [columns, hn])
    have hv := mapColumns_congr value fun n hn => h n (by simp [columns, hn])
    rw [mapColumns, mapColumns, hc, hv]
  | .conditional condition value (some otherwise), h => by
    have hc := mapColumns_congr condition fun n hn => h n (by simp [columns, hn])
    have hv := mapColumns_congr value fun n hn => h n (by simp [columns, hn])
    have ho := mapColumns_congr otherwise fun n hn => h n (by simp [columns, hn])
    rw [mapColumns, mapColumns, hc, hv, ho]
  | .inList expr candidates, h => by
    have he := mapColumns_congr expr fun n hn => h n (by simp [columns, hn])
    have hc := mapColumnsOfList_congr candidates fun n hn => h n (by simp [columns, hn])
    rw [mapColumns, mapColumns, he, hc]
  | .inExpr left right, h | .binary _ left right, h => by
    have hl := mapColumns_congr left fun n hn => h n (by simp [columns, hn])
    have hr := mapColumns_congr right fun n hn => h n (by simp [columns, hn])
    rw [mapColumns, mapColumns, hl, hr]
  | .unary _ operand, h => by rw [mapColumns, mapColumns, mapColumns_congr operand h]

theorem mapColumnsOfArgs_congr {f g : String → String} :
    ∀ args : List (Arg Expr), (∀ n ∈ columnsOfArgs args, f n = g n) →
      mapColumnsOfArgs f args = mapColumnsOfArgs g args
  | [], _ => rfl
  | ⟨_, e⟩ :: rest, h => by
    have he := mapColumns_congr e fun n hn => h n (by simp [columnsOfArgs, hn])
    have hrest := mapColumnsOfArgs_congr rest fun n hn => h n (by simp [columnsOfArgs, hn])
    rw [mapColumnsOfArgs, mapColumnsOfArgs, he, hrest]

theorem mapColumnsOfList_congr {f g : String → String} :
    ∀ es : List Expr, (∀ n ∈ columnsOfList es, f n = g n) →
      mapColumnsOfList f es = mapColumnsOfList g es
  | [], _ => rfl
  | e :: rest, h => by
    have he := mapColumns_congr e fun n hn => h n (by simp [columnsOfList, hn])
    have hrest := mapColumnsOfList_congr rest fun n hn => h n (by simp [columnsOfList, hn])
    rw [mapColumnsOfList, mapColumnsOfList, he, hrest]

end

mutual

theorem mapColumns_id : ∀ e : Expr, e.mapColumns (fun name => name) = e
  | .column _ | .literal _ => rfl
  | .call function args window => by rw [mapColumns, mapColumnsOfArgs_id args]
  | .conditional condition value none => by
    rw [mapColumns, mapColumns_id condition, mapColumns_id value]
  | .conditional condition value (some otherwise) => by
    rw [mapColumns, mapColumns_id condition, mapColumns_id value, mapColumns_id otherwise]
  | .inList expr candidates => by
    rw [mapColumns, mapColumns_id expr, mapColumnsOfList_id candidates]
  | .inExpr left right | .binary _ left right => by
    rw [mapColumns, mapColumns_id left, mapColumns_id right]
  | .unary _ operand => by rw [mapColumns, mapColumns_id operand]

theorem mapColumnsOfArgs_id :
    ∀ args : List (Arg Expr), mapColumnsOfArgs (fun name => name) args = args
  | [] => rfl
  | ⟨_, e⟩ :: rest => by rw [mapColumnsOfArgs, mapColumns_id e, mapColumnsOfArgs_id rest]

theorem mapColumnsOfList_id : ∀ es : List Expr, mapColumnsOfList (fun name => name) es = es
  | [] => rfl
  | e :: rest => by rw [mapColumnsOfList, mapColumns_id e, mapColumnsOfList_id rest]

end

end Expr

namespace Heading

theorem any_renamedIdents (columns : List String) (pairs : List (String × String)) (name : String) :
    (Compiler.renamedIdents columns pairs).any (·.name == name) = columns.contains name := by
  rw [Compiler.renamedIdents, List.any_map, List.contains_eq_any_beq]
  exact congrArg columns.any (funext fun n => Bool.beq_comm)

theorem missing_renamedIdents {h : Heading} (hgroups : ∀ g ∈ h.groups, g ∈ h.columns)
    (pairs : List (String × String)) :
    h.missing (Compiler.renamedIdents h.columns pairs) = [] := by
  rw [missing, List.filter_eq_nil_iff]
  intro g hg
  simpa [any_renamedIdents] using hgroups g hg

theorem output_renamedIdents (columns : List String) (pairs : List (String × String)) :
    (Compiler.renamedIdents columns pairs).map Ident.output =
      columns.map (Expr.renamed pairs) := by
  rw [Compiler.renamedIdents, List.map_map]
  rfl

/-- A renaming of columns is the selection of all of them, each under its new name. -/
theorem select_renamedIdents {h : Heading} (hgroups : ∀ g ∈ h.groups, g ∈ h.columns)
    (horder : ∀ key ∈ h.order, ∀ n ∈ key.columns, n ∈ h.columns) (pairs : List (String × String)) :
    h.select (Compiler.renamedIdents h.columns pairs) = h.rename pairs := by
  have hkeeps : ∀ key ∈ h.order, h.keeps (Compiler.renamedIdents h.columns pairs) key = true := by
    intro key hkey
    rw [keeps, List.all_eq_true]
    intro n hn
    rw [any_renamedIdents, List.contains_iff_mem.2 (horder key hkey n hn), Bool.or_true]
  have hfollowed : ∀ n ∈ h.columns,
      Relation.followed (Compiler.renamedIdents h.columns pairs) n = Expr.renamed pairs n :=
    fun n hn => Relation.followed_renamedIdents hn pairs
  have hkeys : h.order.map
      (Expr.mapColumns (Relation.followed (Compiler.renamedIdents h.columns pairs))) =
        h.order.map (Expr.rename pairs) := by
    refine List.map_congr_left fun key hkey => ?_
    exact Expr.mapColumns_congr key fun n hn => hfollowed n (horder key hkey n hn)
  have hdropped : h.order.filter
      (fun key => !h.keeps (Compiler.renamedIdents h.columns pairs) key) = [] := by
    rw [List.filter_eq_nil_iff]
    intro key hkey
    simp [hkeeps key hkey]
  rw [select, rename, missing_renamedIdents hgroups, output_renamedIdents,
    List.filter_eq_self.2 hkeeps, hkeys, hdropped,
    List.append_nil, List.map_congr_left fun g hg => hfollowed g (hgroups g hg)]
  rfl

end Heading

end SqlChain
