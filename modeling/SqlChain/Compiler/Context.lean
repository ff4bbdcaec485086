import SqlChain.Config
import SqlChain.Dialect.Quoting
import SqlChain.Expr.Basic

/-!
# Contexts

An expression is compiled under a context, which gives the table that columns belong to and a
window where one is allowed. Compiling may warn and may fail, and the warnings are kept also when
it fails.
-/

namespace SqlChain

/-- The rows a window function sees, and the order in which it sees them. -/
structure Window where
  partition : List String
  order : List Expr
deriving Repr

structure Context where
  /-- The window for calls that need one, if windows are allowed. -/
  window : Option Window
  /-- The table in front of every column. -/
  qualifier : Option String
deriving Repr

namespace Context

def scalar : Context := { window := none, qualifier := none }

def windowed (partition : List String) (order : List Expr) : Context :=
  { window := some { partition, order }, qualifier := none }

def qualified (qualifier : String) : Context := { window := none, qualifier := some qualifier }

end Context

/-- Computations that may fail and may warn. -/
abbrev CompileM := ExceptT Error (StateM (List Warning))

def warn (w : Warning) : CompileM Unit := modify (· ++ [w])

def attempt {α : Type} (r : Except Error α) : CompileM α := ExceptT.mk (pure r)

end SqlChain
