import SqlChain.Proofs.Chain.Heading
import SqlChain.Proofs.Meaning.Over

/-!
# Chains with windows applied step by step

What the operations of a chain do one after another where a predicate or an assignment may look at
all rows that are there. The grouping columns divide the rows, and the ordering says how they follow
one another.
-/

namespace SqlChain

/-- Rows with the columns by which they are grouped and the keys by which they are ordered. -/
structure Listing extends Relation where
  order : List Expr

namespace Listing

def window (l : Listing) : Window := { partition := l.groups, order := l.order }

def heading (l : Listing) : Heading :=
  { columns := l.columns, groups := l.groups, order := l.order, dropped := [] }

/-- The rows that `q` holds for at their places. -/
def restrict (l : Listing) (q : Place Env → Bool) : Listing :=
  { l with
    rows := ((places l.rows).filter fun p => q (p.map (cell l.columns))).map (·.here) }

/-- The rows with a cell that depends on their places. -/
def assign (l : Listing) (name : String) (value : Place Env → Scalar) : Listing :=
  let columns := withName l.columns name
  { l with
    columns
    rows := (places l.rows).map fun p =>
      columns.map fun n =>
        if n = name then value (p.map (cell l.columns)) else cell l.columns p.here n }

theorem nodup_assign {l : Listing} (h : l.columns.Nodup) (name : String)
    (value : Place Env → Scalar) : (l.assign name value).columns.Nodup :=
  nodup_withName h name

/-- A predicate that looks at its own row only. -/
theorem rows_restrict (l : Listing) (q : Env → Bool) :
    (l.restrict fun p => q p.here).rows = l.rows.filter fun row => q (cell l.columns row) :=
  filter_places (fun row => q (cell l.columns row)) l.rows

/-- An assignment that looks at its own row only. -/
theorem rows_assign (l : Listing) (name : String) (value : Env → Scalar) :
    (l.assign name fun p => value p.here).rows = l.rows.map fun row =>
      (withName l.columns name).map fun n =>
        if n = name then value (cell l.columns row) else cell l.columns row n := by
  conv_rhs => rw [← map_here_places l.rows]
  rw [List.map_map]
  rfl

end Listing

namespace Windows

variable {ω : Type} (W : Windows ω)

def restrict (l : Listing) (e : Expr) : Listing := l.restrict fun p => W.holdsAt l.window p e

def assign (l : Listing) (name : String) (e : Expr) : Listing :=
  l.assign name fun p => W.valueAt l.window p e

/-- An operation, every predicate and every assignment being evaluated over all rows that are there
when its turn comes. -/
def apply (l : Listing) : Op → Listing
  | .filter predicates => predicates.foldl W.restrict l
  | .mutate assignments => assignments.foldl (fun l a => W.assign l a.1 a.2) l
  | op => { W.toSemantics.apply l.toRelation op with order := (l.heading.apply op).order }

def table (source : Source) : Listing := { W.toSemantics.table source with order := [] }

/-- The operations applied one after another to the table. -/
def result (source : Source) (ops : List Op) : Listing := ops.foldl W.apply (W.table source)

theorem columns_restricts (l : Listing) (predicates : List Expr) :
    (predicates.foldl W.restrict l).columns = l.columns := by
  induction predicates generalizing l with
  | nil => rfl
  | cons e rest ih => exact ih (W.restrict l e)

theorem nodup_assigns {l : Listing} (h : l.columns.Nodup) (assignments : List (String × Expr)) :
    (assignments.foldl (fun l a => W.assign l a.1 a.2) l).columns.Nodup := by
  induction assignments generalizing l with
  | nil => exact h
  | cons a rest ih => exact ih (Listing.nodup_assign h a.1 _)

/-- The columns that there are before an assignment are there after all of them. -/
theorem subset_assigns (l : Listing) (assignments : List (String × Expr)) :
    l.columns ⊆ (assignments.foldl (fun l a => W.assign l a.1 a.2) l).columns := by
  induction assignments generalizing l with
  | nil => exact fun _ hn => hn
  | cons a rest ih => exact fun n hn => ih (W.assign l a.1 a.2) (mem_withName hn a.1)

end Windows

end SqlChain
