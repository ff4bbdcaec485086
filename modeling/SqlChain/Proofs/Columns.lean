import SqlChain.Proofs.Chain.Renaming
import SqlChain.Proofs.Lockstep.Occurrence

/-!
# Columns by their places

A subexpression has a place, to which the numbers of children lead from the top. An expression is
known from what stands at its places, and renaming changes what stands at the places of columns,
every one of them once (`rename_simultaneous`). The columns are listed in the order of their places,
from left to right.
-/

namespace SqlChain

/-! ## First occurrences -/

theorem filter_distinct (p : String → Bool) (xs : List String) :
    (distinct xs).filter p = distinct (xs.filter p) := by
  induction xs with
  | nil => rfl
  | cons x xs ih =>
      rw [distinct]
      by_cases hx : p x = true
      · rw [List.filter_cons_of_pos hx, List.filter_cons_of_pos hx, distinct, ← ih,
          List.filter_filter, List.filter_filter]
        simp only [Bool.and_comm]
      · rw [List.filter_cons_of_neg hx, List.filter_cons_of_neg hx, ← ih, List.filter_filter]
        refine List.filter_congr fun y _ => ?_
        by_cases hy : p y = true
        · have hne : y ≠ x := fun h => hx (h ▸ hy)
          simp [hy, hne]
        · simp [hy]

theorem distinct_eq_eraseDups : ∀ xs : List String, distinct xs = xs.eraseDups
  | [] => rfl
  | x :: xs => by
    rw [distinct, filter_distinct, List.eraseDups_cons, distinct_eq_eraseDups (xs.filter _)]
    congr 3
    funext y
    by_cases h : y = x <;> simp [h]
termination_by xs => xs.length
decreasing_by exact Nat.lt_succ_of_le (List.length_filter_le _ _)

/-- It makes no difference if what occurs again is left out before. -/
theorem distinct_map_distinct (f : String → String) (xs : List String) :
    distinct ((distinct xs).map f) = distinct (xs.map f) := by
  induction xs with
  | nil => rfl
  | cons x xs ih =>
      have hfilter : (((distinct xs).filter (· ≠ x)).map f).filter (· ≠ f x) =
          ((distinct xs).map f).filter (· ≠ f x) := by
        rw [List.filter_map, List.filter_map, List.filter_filter]
        congr 1
        refine List.filter_congr fun y _ => ?_
        by_cases h : f y = f x
        · simp [h]
        · have hne : y ≠ x := fun heq => h (heq ▸ rfl)
          simp [h, hne]
      rw [distinct, List.map_cons, List.map_cons, distinct, distinct, filter_distinct, hfilter,
        ← filter_distinct, ih]

/-! ## Pairs of names -/

namespace Expr

variable {pairs : List (String × String)}

/-- The pair that counts for a name is the first one that is about it. -/
theorem renamed_eq_find? (pairs : List (String × String)) (name : String) :
    renamed pairs name = ((pairs.find? (·.1 == name)).map Prod.snd).getD name := by
  have hlookup : pairs.lookup name = (pairs.find? (·.1 == name)).map Prod.snd := by
    induction pairs with
    | nil => rfl
    | cons pair pairs ih =>
        rw [List.lookup_cons, List.find?_cons, ih, Bool.beq_comm]
        cases pair.1 == name <;> rfl
  rw [renamed, hlookup]

/-- Where no name is renamed twice, each pair counts. -/
theorem lookup_eq_some_iff_mem (hnodup : (pairs.map Prod.fst).Nodup) {name target : String} :
    pairs.lookup name = some target ↔ (name, target) ∈ pairs := by
  constructor
  · intro h
    obtain ⟨before, after, rfl, -⟩ := List.lookup_eq_some_iff.1 h
    exact List.mem_append_right _ List.mem_cons_self
  · intro h
    obtain ⟨before, after, rfl⟩ := List.append_of_mem h
    rw [List.map_append, List.map_cons, List.nodup_middle, List.nodup_cons] at hnodup
    refine List.lookup_eq_some_iff.2 ⟨before, after, rfl, fun pair hpair => ?_⟩
    have hne : name ≠ pair.1 := by
      rintro rfl
      exact hnodup.1 (List.mem_append_left _ (List.mem_map.2 ⟨pair, hpair, rfl⟩))
    simpa using hne

/-- A rearrangement of names is undone by the pairs the other way round. -/
theorem renamed_swap (hnodup : (pairs.map Prod.fst).Nodup)
    (hperm : (pairs.map Prod.snd).Perm (pairs.map Prod.fst)) (name : String) :
    renamed (pairs.map Prod.swap) (renamed pairs name) = name := by
  have hfst : (pairs.map Prod.swap).map Prod.fst = pairs.map Prod.snd := List.map_map
  cases htarget : pairs.lookup name with
  | some target =>
      have hmem := (lookup_eq_some_iff_mem hnodup).1 htarget
      have hback : (pairs.map Prod.swap).lookup target = some name := by
        rw [lookup_eq_some_iff_mem (hfst ▸ hperm.nodup_iff.2 hnodup)]
        exact List.mem_map_of_mem (f := Prod.swap) hmem
      rw [renamed, renamed, htarget, Option.getD_some, hback, Option.getD_some]
  | none =>
      have hsource : name ∉ pairs.map Prod.fst := by
        intro hmem
        obtain ⟨pair, hpair, rfl⟩ := List.mem_map.1 hmem
        rw [(lookup_eq_some_iff_mem hnodup).2 hpair] at htarget
        cases htarget
      have hback : (pairs.map Prod.swap).lookup name = none := by
        rw [List.lookup_eq_none_iff]
        rintro pair hpair
        have hmem : pair.1 ∈ pairs.map Prod.snd := hfst ▸ List.mem_map_of_mem hpair
        have hne : name ≠ pair.1 := fun h => hsource (h ▸ hperm.mem_iff.1 hmem)
        simpa using hne
      rw [renamed, renamed, htarget, Option.getD_none, hback, Option.getD_none]

/-! ## Places -/

/-- What an expression is apart from its children. -/
inductive Node where
  | column (name : String)
  | literal (value : Scalar)
  | call (function : String) (names : List (Option String)) (window : Bool)
  | conditional (hasOtherwise : Bool)
  | inList
  | inExpr
  | binary (op : BinaryOp)
  | unary (op : UnaryOp)
deriving Repr

def node : Expr → Node
  | .column name => .column name
  | .literal value => .literal value
  | .call function args window => .call function (args.map Arg.name) window
  | .conditional _ _ otherwise => .conditional otherwise.isSome
  | .inList _ _ => .inList
  | .inExpr _ _ => .inExpr
  | .binary op _ _ => .binary op
  | .unary op _ => .unary op

/-- The subexpression at a place. -/
def at? : List Nat → Expr → Option Expr
  | [], e => some e
  | i :: place, e => e.children[i]?.bind (at? place)

def node? (place : List Nat) (e : Expr) : Option Node := (e.at? place).map node

/-- A column under its new name, and anything else as it is. -/
def Node.rename (renames : List (String × String)) : Node → Node
  | .column name => .column (renamed renames name)
  | node => node

theorem node?_nil (e : Expr) : e.node? [] = some e.node := rfl

theorem node?_cons_eq_some_iff {e : Expr} {i : Nat} {place : List Nat} {x : Node} :
    e.node? (i :: place) = some x ↔
      ∃ child, e.children[i]? = some child ∧ child.node? place = some x := by
  rw [node?, at?]
  cases e.children[i]? with
  | none => simp
  | some child => simp [node?]

theorem args_ext {args others : List (Arg Expr)} (hnames : args.map Arg.name = others.map Arg.name)
    (hvalues : args.map Arg.value = others.map Arg.value) : args = others := by
  induction args generalizing others with
  | nil => exact (List.map_eq_nil_iff.1 hnames.symm).symm
  | cons arg args ih =>
      cases others with
      | nil => cases hnames
      | cons other others =>
          obtain ⟨hname, hnames⟩ := List.cons.inj hnames
          obtain ⟨hvalue, hvalues⟩ := List.cons.inj hvalues
          rw [ih hnames hvalues]
          cases arg
          cases other
          cases hname
          cases hvalue
          rfl

theorem eq_of_node_of_children {e e' : Expr} (hnode : e.node = e'.node)
    (hchildren : e.children = e'.children) : e = e' := by
  cases e with
  | call function args window =>
      cases e' with
      | call function' args' window' =>
          obtain ⟨rfl, hnames, rfl⟩ := Node.call.inj hnode
          rw [args_ext hnames hchildren]
      | _ => cases hnode
  | conditional condition value otherwise =>
      cases e' with
      | conditional condition' value' otherwise' =>
          cases otherwise <;> cases otherwise' <;> simp_all [node, children]
      | _ => cases hnode
  | _ => cases e' <;> simp_all [node, children]

theorem node_rename (renames : List (String × String)) (e : Expr) :
    (e.rename renames).node = e.node.rename renames := by
  cases e with
  | call function args window =>
      rw [rename, mapColumns, node, node, mapColumnsOfArgs_eq_map, List.map_map]
      rfl
  | conditional condition value otherwise => cases otherwise <;> rfl
  | _ => rfl

theorem at?_rename (renames : List (String × String)) (e : Expr) (place : List Nat) :
    (e.rename renames).at? place = (e.at? place).map (rename renames) := by
  induction place generalizing e with
  | nil => rfl
  | cons i place ih =>
      rw [at?, at?, rename, children_mapColumns, List.getElem?_map]
      cases e.children[i]? with
      | none => rfl
      | some child => exact ih child

/-- An expression is known from what stands at its places. -/
theorem eq_of_node? {e e' : Expr} (h : ∀ place, e.node? place = e'.node? place) : e = e' := by
  induction e using Expr.induct generalizing e' with
  | step e ih =>
    refine eq_of_node_of_children (Option.some.inj (h [])) (List.ext_getElem? fun i => ?_)
    have hplaces : ∀ place, (e.children[i]?.bind (at? place)).map node =
        (e'.children[i]?.bind (at? place)).map node := fun place => h (i :: place)
    cases hchild : e.children[i]? with
    | none =>
        cases hother : e'.children[i]? with
        | none => rfl
        | some other =>
            rw [hchild, hother] at hplaces
            cases hplaces []
    | some child =>
        cases hother : e'.children[i]? with
        | none =>
            rw [hchild, hother] at hplaces
            cases hplaces []
        | some other =>
            rw [hchild, hother] at hplaces
            rw [ih child (List.mem_of_getElem? hchild) hplaces]

/-- Renaming is the one change by which every column gets its new name and nothing else changes. -/
theorem eq_rename_iff {renames : List (String × String)} {e e' : Expr} :
    e' = e.rename renames ↔
      ∀ place, e'.node? place = (e.node? place).map (Node.rename renames) := by
  have hrename : ∀ place, (e.rename renames).node? place =
      (e.node? place).map (Node.rename renames) := by
    intro place
    rw [node?, node?, at?_rename, Option.map_map, Option.map_map]
    exact Option.map_congr fun x _ => node_rename renames x
  constructor
  · rintro rfl
    exact hrename
  · exact fun h => eq_of_node? fun place => (h place).trans (hrename place).symm

/-! ## Columns from left to right -/

theorem columns_of_children {e : Expr} (h : e.asColumn? = none) :
    e.columns = e.children.flatMap columns := by
  have hargs : ∀ args : List (Arg Expr),
      columnsOfArgs args = (args.map Arg.value).flatMap columns := by
    intro args
    induction args with
    | nil => rfl
    | cons arg args ih => rw [columnsOfArgs, ih, List.map_cons, List.flatMap_cons]
  have hlist : ∀ es : List Expr, columnsOfList es = es.flatMap columns := by
    intro es
    induction es with
    | nil => rfl
    | cons e es ih => rw [columnsOfList, ih, List.flatMap_cons]
  cases e with
  | column name => cases h
  | literal value => rfl
  | call function args window => exact hargs args
  | conditional condition value otherwise => cases otherwise <;> simp [columns, children]
  | inList operand candidates =>
      rw [columns, children, hlist, List.flatMap_cons]
  | inExpr | binary | unary => simp [columns, children]

/-- All columns in the order of their places, `At` saying which columns there are. -/
structure IsListing (At : List Nat → String → Prop) (places : List (List Nat × String))
    (names : List String) : Prop where
  sorted : (places.map Prod.fst).Pairwise (· < ·)
  mem_iff : ∀ place name, (place, name) ∈ places ↔ At place name
  names : places.map Prod.snd = names

/-- The columns of several children, of which the first has the number `k`. -/
theorem exists_isListing_children {es : List Expr} (h : ∀ e ∈ es, ∃ places,
    IsListing (fun place name => e.node? place = some (.column name)) places e.columns) (k : Nat) :
    ∃ places, IsListing (fun place name => ∃ i rest, place = (k + i) :: rest ∧
      ∃ e, es[i]? = some e ∧ e.node? rest = some (.column name)) places (es.flatMap columns) := by
  induction es generalizing k with
  | nil => exact ⟨[], .nil, by simp, rfl⟩
  | cons e es ih =>
      obtain ⟨hfirst, hrest⟩ := List.forall_mem_cons.1 h
      obtain ⟨here, hhere⟩ := hfirst
      obtain ⟨there, hthere⟩ := ih hrest (k + 1)
      refine ⟨here.map (fun x => (k :: x.1, x.2)) ++ there, ?_, fun place name => ?_, ?_⟩
      · rw [List.map_append, List.map_map, List.pairwise_append]
        refine ⟨?_, hthere.sorted, ?_⟩
        · have hsorted := hhere.sorted
          rw [List.pairwise_map] at hsorted ⊢
          exact hsorted.imp fun hlt => List.cons_lt_cons_iff.2 (.inr ⟨rfl, hlt⟩)
        · intro p hp q hq
          obtain ⟨x, -, rfl⟩ := List.mem_map.1 hp
          obtain ⟨⟨place, name⟩, hmem, rfl⟩ := List.mem_map.1 hq
          obtain ⟨i, rest, rfl, -⟩ := (hthere.mem_iff place name).1 hmem
          exact List.cons_lt_cons_iff.2 (.inl (by omega))
      · rw [List.mem_append, hthere.mem_iff, List.mem_map]
        constructor
        · rintro (⟨⟨rest, found⟩, hmem, heq⟩ | ⟨i, rest, rfl, hchild⟩)
          · cases heq
            exact ⟨0, rest, rfl, e, rfl, (hhere.mem_iff rest found).1 hmem⟩
          · exact ⟨i + 1, rest, by rw [Nat.add_right_comm, Nat.add_assoc], hchild⟩
        · rintro ⟨i, rest, rfl, child, hchild, hname⟩
          cases i with
          | zero =>
              cases hchild
              exact .inl ⟨(rest, name), (hhere.mem_iff rest name).2 hname, rfl⟩
          | succ i =>
              exact .inr ⟨i, rest, by rw [Nat.add_right_comm, Nat.add_assoc], child, hchild, hname⟩
      · rw [List.map_append, hthere.names, List.map_map, List.flatMap_cons, ← hhere.names]
        rfl

theorem exists_isListing (e : Expr) : ∃ places,
    IsListing (fun place name => e.node? place = some (.column name)) places e.columns := by
  induction e using Expr.induct with
  | step e ih =>
    cases hcolumn : e.asColumn? with
    | some name =>
        obtain rfl : e = .column name := by
          cases e <;> simp_all [asColumn?]
        refine ⟨[([], name)], List.pairwise_singleton _ _, fun place other => ?_, rfl⟩
        cases place with
        | nil => simp [node?_nil, node, eq_comm]
        | cons i place => simp [node?_cons_eq_some_iff, children]
    | none =>
        obtain ⟨places, hplaces⟩ := exists_isListing_children ih 0
        refine ⟨places, hplaces.sorted, fun place name => ?_, ?_⟩
        · rw [hplaces.mem_iff]
          cases place with
          | nil =>
              have hnode : e.node ≠ .column name := by
                cases e <;> simp_all [node, asColumn?]
              simp [node?_nil, hnode]
          | cons i place => simp [node?_cons_eq_some_iff]
        · rw [hplaces.names, columns_of_children hcolumn]

/-! ## Renaming -/

/-- Every column gets the target of the first pair that is about it, and nothing else changes. The
references that are left are the new names of those there were. A rearrangement of names is undone
by its pairs the other way round, and one column is renamed as by one pair. References are the names
at the places of columns from left to right, each at its first occurrence. -/
theorem rename_simultaneous (e : Expr) (renames : List (String × String)) :
    (∀ e', e' = e.rename renames ↔
      ∀ place, e'.node? place = (e.node? place).map (Node.rename renames)) ∧
    (∀ name, renamed renames name =
      ((renames.find? (·.1 == name)).map Prod.snd).getD name) ∧
    (e.rename renames).references = (e.references.map (renamed renames)).eraseDups ∧
    ((renames.map Prod.fst).Nodup → (renames.map Prod.snd).Perm (renames.map Prod.fst) →
      (e.rename renames).rename (renames.map Prod.swap) = e) ∧
    (∀ source target, e.renameColumn source target = e.rename [(source, target)]) ∧
    ∃ places : List (List Nat × String),
      (places.map Prod.fst).Pairwise (· < ·) ∧
      (∀ place name, (place, name) ∈ places ↔ e.node? place = some (.column name)) ∧
      e.references = (places.map Prod.snd).eraseDups := by
  refine ⟨fun _ => eq_rename_iff, renamed_eq_find? renames, ?_, fun hnodup hperm => ?_,
    fun source target => e.renameColumn_eq_rename source target, ?_⟩
  · rw [references, references, rename, columns_mapColumns, ← distinct_map_distinct,
      distinct_eq_eraseDups]
  · exact rename_rename fun name _ => renamed_swap hnodup hperm name
  · obtain ⟨places, hplaces⟩ := e.exists_isListing
    exact ⟨places, hplaces.sorted, hplaces.mem_iff,
      by rw [hplaces.names, references, distinct_eq_eraseDups]⟩

/-- Columns in all parts of a conditional, `a` and `b` more than once. -/
def sampleChoice : Expr :=
  .conditional (.inList (.column "a") [.column "b", .literal (.int64 1), .column "a"])
    (.call "sum" [⟨some "x", .column "b"⟩] true)
    (some (.inExpr (.column "c") (.unary .not (.column "a"))))

theorem rename_simultaneous_exchanged :
    ([("a", "b"), ("b", "a")].map Prod.fst).Nodup ∧
      ([("a", "b"), ("b", "a")].map Prod.snd).Perm ([("a", "b"), ("b", "a")].map Prod.fst) ∧
      (sampleChoice.rename [("a", "b"), ("b", "a")]).rename [("b", "a"), ("a", "b")] =
        sampleChoice ∧
      (sampleChoice.rename [("a", "b"), ("b", "a")]).references = ["b", "a", "c"] := by
  have hnodup : ([("a", "b"), ("b", "a")].map Prod.fst).Nodup := by decide
  have hperm : ([("a", "b"), ("b", "a")].map Prod.snd).Perm
      ([("a", "b"), ("b", "a")].map Prod.fst) := .swap _ _ _
  obtain ⟨-, -, hreferences, hback, -, -⟩ :=
    rename_simultaneous sampleChoice [("a", "b"), ("b", "a")]
  exact ⟨hnodup, hperm, hback hnodup hperm, hreferences.trans (by decide)⟩

end Expr

end SqlChain
