import SqlChain.Expr.Basic
import SqlChain.Ident

/-!
# Queries

A query is a chain of relational operations over a table. Nothing is compiled before it is
rendered.
-/

namespace SqlChain

/-- The table that a query reads. -/
structure Source where
  schema : Option String
  name : String
  columns : List String
deriving DecidableEq, Repr

inductive Op where
  /-- Keep these columns, some of them under other names. -/
  | select (idents : List Ident)
  /-- Rename columns by old and new name, keeping all of them. -/
  | rename (pairs : List (String × String))
  /-- Keep the rows that satisfy every predicate. -/
  | filter (predicates : List Expr)
  /-- Add or replace columns. An assignment may refer to those before it. -/
  | mutate (assignments : List (String × Expr))
  /-- Collapse every group into one row. -/
  | summarise (assignments : List (String × Expr))
  | arrange (keys : List Expr)
  /-- Group by these columns, possibly in addition to those that are grouped by already. -/
  | groupBy (keys : List String) (add : Bool)
  | ungroup
deriving Repr

structure Query where
  source : Source
  ops : List Op
deriving Repr

end SqlChain
