import SqlChain.Proofs.Clauses
import SqlChain.Proofs.Meaning.Expression
import SqlChain.Query.Build

/-!
# Chains applied step by step

What the operations of a chain do to a table one after another, without any statement in between.
-/

namespace SqlChain

/-! ## Cells -/

theorem lookup_zip_map {α : Type} (xs : List α) (f : α → String) (g : α → Scalar)
    (name : String) :
    ((xs.map f).zip (xs.map g)).lookup name = (xs.find? (f · == name)).map g := by
  induction xs with
  | nil => rfl
  | cons x xs ih =>
      rw [List.map_cons, List.map_cons, List.zip_cons_cons, List.lookup_cons, List.find?_cons]
      by_cases hx : f x = name
      · simp [hx]
      · have hne : (name == f x) = false := beq_false_of_ne (Ne.symm hx)
        have hne' : (f x == name) = false := beq_false_of_ne hx
        rw [hne, hne', ih]

theorem cell_map {α : Type} (xs : List α) (f : α → String) (g : α → Scalar) (name : String) :
    cell (xs.map f) (xs.map g) name = ((xs.find? (f · == name)).map g).getD .null := by
  rw [cell, lookup_zip_map]

theorem cell_map_self {columns : List String} {n : String} (h : n ∈ columns)
    (g : String → Scalar) : cell columns (columns.map g) n = g n := by
  have hfind : columns.find? (· == n) = some n := by
    obtain ⟨m, hm⟩ := Option.isSome_iff_exists.1
      ((List.find?_isSome (p := (· == n))).2 ⟨n, h, beq_self_eq_true n⟩)
    have hname : m = n := by simpa using List.find?_some hm
    rw [hm, hname]
  have hcell := cell_map columns id g n
  rw [List.map_id] at hcell
  rw [hcell]
  exact (congrArg (fun found => (Option.map g found).getD .null) hfind)

theorem cell_of_notMem {columns : List String} {n : String} (h : n ∉ columns) (row : Row) :
    cell columns row n = .null := by
  induction columns generalizing row with
  | nil => rfl
  | cons m ms ih =>
      obtain ⟨hne, hn⟩ := List.ne_and_not_mem_of_not_mem_cons h
      cases row with
      | nil => rfl
      | cons v vs =>
          rw [cell, List.zip_cons_cons, List.lookup_cons, beq_false_of_ne hne]
          exact ih hn vs

/-- Of columns of one name, all get the cell of the first. -/
theorem cell_map_cell (columns : List String) (row : Row) :
    cell columns (columns.map (cell columns row)) = cell columns row := by
  funext n
  by_cases hn : n ∈ columns
  · exact cell_map_self hn _
  · rw [cell_of_notMem hn, cell_of_notMem hn]

/-- A row is its cells read off column by column. -/
theorem map_cell {columns : List String} (h : columns.Nodup) {row : Row}
    (hlength : row.length = columns.length) : columns.map (cell columns row) = row := by
  induction columns generalizing row with
  | nil => exact (List.length_eq_zero_iff.1 hlength).symm
  | cons name names ih =>
      obtain ⟨hname, hnames⟩ := List.nodup_cons.1 h
      cases row with
      | nil => cases hlength
      | cons x xs =>
          have hhead : cell (name :: names) (x :: xs) name = x := by simp [cell]
          have htail : ∀ n ∈ names, cell (name :: names) (x :: xs) n = cell names xs n := by
            intro n hn
            have hne : (n == name) = false := by
              refine beq_false_of_ne ?_
              rintro rfl
              exact hname hn
            rw [cell, cell, List.zip_cons_cons, List.lookup_cons, hne]
          rw [List.map_cons, hhead, List.map_congr_left htail]
          rw [ih hnames (by simpa using hlength)]

theorem cell_append_left {columns names : List String} {row values : Row} {n : String}
    (hlength : row.length = columns.length) (hn : n ∈ columns) :
    cell (columns ++ names) (row ++ values) n = cell columns row n := by
  induction columns generalizing row with
  | nil => cases hn
  | cons m ms ih =>
      cases row with
      | nil => cases hlength
      | cons x xs =>
          rw [List.cons_append, List.cons_append, cell, cell, List.zip_cons_cons,
            List.zip_cons_cons, List.lookup_cons, List.lookup_cons]
          by_cases hm : n = m
          · rw [beq_iff_eq.2 hm]
          · rw [beq_false_of_ne hm]
            exact ih (by simpa using hlength) (List.mem_of_ne_of_mem hm hn)

theorem cell_append_right {columns names : List String} {row values : Row} {n : String}
    (hlength : row.length = columns.length) (hn : n ∉ columns) :
    cell (columns ++ names) (row ++ values) n = cell names values n := by
  induction columns generalizing row with
  | nil =>
      obtain rfl := List.length_eq_zero_iff.1 hlength
      rfl
  | cons m ms ih =>
      obtain ⟨hm, hms⟩ := not_or.1 (fun h => hn (List.mem_cons.2 h))
      cases row with
      | nil => cases hlength
      | cons x xs =>
          rw [List.cons_append, List.cons_append, cell, List.zip_cons_cons, List.lookup_cons,
            beq_false_of_ne hm]
          exact ih (by simpa using hlength) hms

/-! ## Groups -/

section

variable {α β : Type}

/-- The first of every group of elements with equal keys. -/
def representatives (key : α → GroupKey) : List α → List α
  | [] => []
  | x :: xs => x :: (representatives key xs).filter fun y => !GroupKey.equal (key x) (key y)

/-- The elements with equal keys, in the order in which their keys occur first. -/
def groupsBy (key : α → GroupKey) (xs : List α) : List (List α) :=
  (representatives key xs).map fun x => xs.filter fun y => GroupKey.equal (key x) (key y)

theorem mem_of_mem_representatives {key : α → GroupKey} {x : α} {xs : List α}
    (h : x ∈ representatives key xs) : x ∈ xs := by
  induction xs with
  | nil => exact h
  | cons y ys ih =>
      rcases List.mem_cons.1 h with rfl | h
      · exact List.mem_cons_self
      · exact List.mem_cons_of_mem _ (ih (List.mem_filter.1 h).1)

theorem representatives_map (key : β → GroupKey) (f : α → β) (xs : List α) :
    representatives key (xs.map f) = (representatives (fun x => key (f x)) xs).map f := by
  induction xs with
  | nil => rfl
  | cons x xs ih =>
      rw [List.map_cons, representatives, representatives, ih, List.map_cons, List.filter_map]
      rfl

theorem groupsBy_map (key : β → GroupKey) (f : α → β) (xs : List α) :
    groupsBy key (xs.map f) = (groupsBy (fun x => key (f x)) xs).map (List.map f) := by
  rw [groupsBy, groupsBy, representatives_map, List.map_map, List.map_map]
  refine List.map_congr_left fun x _ => ?_
  exact List.filter_map

theorem representatives_congr {key other : α → GroupKey} {xs : List α}
    (h : ∀ x ∈ xs, key x = other x) : representatives key xs = representatives other xs := by
  induction xs with
  | nil => rfl
  | cons x xs ih =>
      have hxs : ∀ y ∈ xs, key y = other y := fun y hy => h y (List.mem_cons_of_mem _ hy)
      rw [representatives, representatives, ih hxs]
      congr 1
      refine List.filter_congr fun y hy => ?_
      rw [h x List.mem_cons_self, hxs y (mem_of_mem_representatives hy)]

theorem groupsBy_congr {key other : α → GroupKey} {xs : List α}
    (h : ∀ x ∈ xs, key x = other x) : groupsBy key xs = groupsBy other xs := by
  rw [groupsBy, groupsBy, representatives_congr h]
  refine List.map_congr_left fun x hx => ?_
  refine List.filter_congr fun y hy => ?_
  rw [h x (mem_of_mem_representatives hx), h y hy]

end

/-- The rows that agree in the grouping columns, nulls being equal to each other. Without grouping
columns all rows are one group, also if there are none. -/
def RowSet.grouped (t : RowSet) (keys : List String) : List (List Row) :=
  if keys.isEmpty then [t.rows] else groupsBy (fun row => keys.map (cell t.columns row)) t.rows

/-! ## Operations -/

/-- Rows and the columns by which they are grouped. -/
structure Relation extends RowSet where
  groups : List String

namespace Relation

/-- The first new name that a column is given, or its own if it is given none. -/
def followed (idents : List Ident) (name : String) : String :=
  (idents.findSome? fun i => if i.name = name then i.newName else none).getD name

def withGroups (r : Relation) (idents : List Ident) : List Ident :=
  (r.groups.filter fun group => !idents.any (·.name == group)).map Ident.ofName ++ idents

def project (r : Relation) (idents : List Ident) : Relation where
  columns := idents.map Ident.output
  rows := r.rows.map fun row => idents.map fun i => cell r.columns row i.name
  groups := r.groups.map (followed idents)

/-- Grouping columns that are not selected come first. -/
def select (r : Relation) (idents : List Ident) : Relation := r.project (r.withGroups idents)

def rename (r : Relation) (pairs : List (String × String)) : Relation :=
  { r with
    columns := r.columns.map (Expr.renamed pairs)
    groups := r.groups.map (Expr.renamed pairs) }

def groupBy (r : Relation) (keys : List String) (add : Bool) : Relation :=
  { r with groups := Compiler.addNew (if add then r.groups else []) keys }

def ungroup (r : Relation) : Relation := { r with groups := [] }

/-! ## Names after a selection -/

theorem renamed_renames (idents : List Ident) (name : String) :
    Expr.renamed (State.renames idents) name = followed idents name := by
  have hlookup : (State.renames idents).lookup name =
      idents.findSome? fun i => if i.name = name then i.newName else none := by
    induction idents with
    | nil => rfl
    | cons i rest ih =>
        rw [List.findSome?_cons, State.renames, List.filterMap_cons]
        cases hnew : i.newName with
        | none => simpa [State.renames] using ih
        | some newName =>
            rw [Option.map_some, List.lookup_cons]
            by_cases hname : i.name = name
            · simp [hname]
            · rw [beq_false_of_ne (Ne.symm hname), if_neg hname]
              exact ih
  rw [Expr.renamed, followed, hlookup]

theorem followed_mem {idents : List Ident} {name : String} (h : ∃ i ∈ idents, i.name = name) :
    followed idents name ∈ idents.map Ident.output := by
  rw [followed]
  cases hfound : idents.findSome? fun i => if i.name = name then i.newName else none with
  | none =>
      obtain ⟨i, hi, rfl⟩ := h
      have hnew : i.newName = none := by simpa using List.findSome?_eq_none_iff.1 hfound i hi
      exact List.mem_map.2 ⟨i, hi, by simp [Ident.output, hnew]⟩
  | some newName =>
      obtain ⟨i, hi, hname⟩ := List.exists_of_findSome?_eq_some hfound
      split at hname
      · exact List.mem_map.2 ⟨i, hi, by simp [Ident.output, hname]⟩
      · cases hname

theorem mem_withGroups (r : Relation) {idents : List Ident} {i : Ident}
    (h : i ∈ r.withGroups idents) : i.name ∈ r.groups ∨ i ∈ idents := by
  rcases List.mem_append.1 h with h | h
  · obtain ⟨group, hgroup, rfl⟩ := List.mem_map.1 h
    exact .inl (List.mem_filter.1 hgroup).1
  · exact .inr h

theorem exists_withGroups (r : Relation) (idents : List Ident) :
    ∀ g ∈ r.groups, ∃ i ∈ r.withGroups idents, i.name = g := by
  intro g hg
  by_cases hselected : idents.any (·.name == g)
  · obtain ⟨i, hi, hname⟩ := List.any_eq_true.1 hselected
    exact ⟨i, List.mem_append_right _ hi, by simpa using hname⟩
  · refine ⟨.ofName g, List.mem_append_left _ (List.mem_map.2 ⟨g, ?_, rfl⟩), rfl⟩
    exact List.mem_filter.2 ⟨hg, by simpa using hselected⟩

theorem withGroups_renamedIdents (r : Relation) (hgroups : ∀ g ∈ r.groups, g ∈ r.columns)
    (pairs : List (String × String)) :
    r.withGroups (Compiler.renamedIdents r.columns pairs) =
      Compiler.renamedIdents r.columns pairs := by
  have hnone : (r.groups.filter fun group =>
      !(Compiler.renamedIdents r.columns pairs).any (·.name == group)) = [] := by
    rw [List.filter_eq_nil_iff]
    intro g hg
    simpa [Compiler.renamedIdents] using hgroups g hg
  rw [withGroups, hnone]
  rfl

theorem followed_renamedIdents {columns : List String} {name : String} (h : name ∈ columns)
    (pairs : List (String × String)) :
    followed (Compiler.renamedIdents columns pairs) name = Expr.renamed pairs name := by
  rw [followed, Expr.renamed]
  cases hfound : (Compiler.renamedIdents columns pairs).findSome? fun i =>
      if i.name = name then i.newName else none with
  | none =>
      have hnone := List.findSome?_eq_none_iff.1 hfound { name, newName := pairs.lookup name }
        (List.mem_map.2 ⟨name, h, rfl⟩)
      simp only [if_true] at hnone
      rw [hnone]
  | some newName =>
      obtain ⟨i, hi, hname⟩ := List.exists_of_findSome?_eq_some hfound
      obtain ⟨n, _, rfl⟩ := List.mem_map.1 hi
      split at hname
      · next hn =>
          cases hn
          rw [← hname]
      · cases hname

/-- A renaming is the selection of all columns, each under its new name. -/
theorem select_renamedIdents (r : Relation) (hnodup : r.columns.Nodup)
    (hrows : ∀ row ∈ r.rows, row.length = r.columns.length)
    (hgroups : ∀ g ∈ r.groups, g ∈ r.columns) (pairs : List (String × String)) :
    r.select (Compiler.renamedIdents r.columns pairs) = r.rename pairs := by
  have hrow : ∀ row ∈ r.rows, ((Compiler.renamedIdents r.columns pairs).map fun i =>
      cell r.columns row i.name) = row := by
    intro row hrow
    rw [Compiler.renamedIdents, List.map_map]
    exact map_cell hnodup (hrows row hrow)
  have hfollowed : ∀ g ∈ r.groups,
      followed (Compiler.renamedIdents r.columns pairs) g = Expr.renamed pairs g :=
    fun g hg => followed_renamedIdents (hgroups g hg) pairs
  rw [select, r.withGroups_renamedIdents hgroups, project, rename, List.map_congr_left hrow,
    List.map_id', List.map_congr_left hfollowed, Compiler.renamedIdents, List.map_map]
  rfl

end Relation

namespace Semantics

variable {ω : Type} (M : Semantics ω)

def filterRows (r : Relation) (e : Expr) : Relation :=
  { r with rows := r.rows.filter fun row => M.holds e (cell r.columns row) }

def assign (r : Relation) (name : String) (e : Expr) : Relation :=
  let columns := withName r.columns name
  { r with
    columns
    rows := r.rows.map fun row =>
      columns.map fun n =>
        if n = name then M.value e [cell r.columns row] else cell r.columns row n }

theorem columns_filters (r : Relation) (predicates : List Expr) :
    (predicates.foldl M.filterRows r).columns = r.columns := by
  induction predicates generalizing r with
  | nil => rfl
  | cons e rest ih => exact ih (M.filterRows r e)

theorem nodup_assigns {r : Relation} (h : r.columns.Nodup) (assignments : List (String × Expr)) :
    (assignments.foldl (fun r a => M.assign r a.1 a.2) r).columns.Nodup := by
  induction assignments generalizing r with
  | nil => exact h
  | cons a rest ih => exact ih (nodup_withName h a.1)

/-- One row for every group, all assignments being evaluated over the rows of the group. -/
def summarise (r : Relation) (assignments : List (String × Expr)) : Relation where
  columns := r.groups ++ assignments.map Prod.fst
  rows := (r.grouped r.groups).map fun group =>
    r.groups.map (groupCell (group.map (cell r.columns))) ++
      assignments.map fun a => M.value a.2 (group.map (cell r.columns))
  groups := []

def apply (r : Relation) : Op → Relation
  | .select idents => r.select idents
  | .rename pairs => r.rename pairs
  | .filter predicates => predicates.foldl M.filterRows r
  | .mutate assignments => assignments.foldl (fun r a => M.assign r a.1 a.2) r
  | .summarise assignments => M.summarise r assignments
  | .arrange _ => r
  | .groupBy keys add => r.groupBy keys add
  | .ungroup => r.ungroup

def table (source : Source) : Relation :=
  { M.stored source.schema source.name source.columns with groups := [] }

/-- The operations applied one after another to the table. -/
def result (source : Source) (ops : List Op) : Relation := ops.foldl M.apply (M.table source)

end Semantics

end SqlChain
