import SqlChain.Scalar

/-!
# Rows with named columns
-/

namespace SqlChain

abbrev Row := List Scalar

/-- Rows under the names of their columns. A row need not have as many values as there are
columns. -/
structure RowSet where
  columns : List String
  rows : List Row
deriving DecidableEq, Repr

namespace RowSet

def columnIndex? (t : RowSet) (name : String) : Option Nat := t.columns.findIdx? (· == name)

/-- The values of the first column of this name, provided that every row has one. -/
def column? (t : RowSet) (name : String) : Option (List Scalar) := do
  let i ← t.columnIndex? name
  t.rows.mapM (·[i]?)

def line (cells : List String) : String := String.intercalate "\t" cells ++ "\n"

/-- The names of the columns and then the rows, each on a line of its own. -/
def text (t : RowSet) : String :=
  line t.columns ++ String.join (t.rows.map fun row => line (row.map Scalar.text))

end RowSet

end SqlChain
