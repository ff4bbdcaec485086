import SqlChain.Group.Computation

/-!
# Results of all groups

The tables of a single computation without a name are put one below the other, each row behind the
label of its group. Named computations give a column each.
-/

namespace SqlChain

inductive Output (ω : Type) where
  | combined (table : RowSet)
  /-- One row for every label, and one column for every computation. -/
  | perGroup (labels : RowSet) (columns : List (String × List (GroupValue ω)))
deriving Repr

namespace Output

variable {ω : Type}

/-- Add the values to the rows one by one. -/
def appendColumn (name : String) :
    List Row → List (GroupValue ω) → Except Error (List Row)
  | row :: rows, .scalar value :: values => do
    return (row ++ [value]) :: (← appendColumn name rows values)
  | _ :: _, value :: _ => .error (.nonUniformShape (.notScalar name value.kind))
  | rows, _ => .ok rows

def appendColumns (table : RowSet) :
    List (String × List (GroupValue ω)) → Except Error RowSet
  | [] => .ok table
  | (name, values) :: rest => do
    let rows ← appendColumn name table.rows values
    appendColumns { columns := table.columns ++ [name], rows } rest

/-- The results as a single table, which they are if all of them are scalars or if they are
combined already. -/
def flatten : Output ω → Except Error RowSet
  | .combined table => .ok table
  | .perGroup labels columns => appendColumns labels columns

/-- The tables of the groups from `index` on, with the columns of those before if there are any. -/
def combineRows (index : Nat) (columns : Option (List String)) :
    List Row → List (GroupValue ω) → Except Error (Option (List String) × List Row)
  | label :: labels, .table table :: values =>
    match columns with
    | some expected =>
      if expected = table.columns then do
        let (columns, rows) ← combineRows (index + 1) (some expected) labels values
        return (columns, table.rows.map (label ++ ·) ++ rows)
      else .error (.nonUniformShape (.otherColumns index table.columns expected))
    | none => do
      let (columns, rows) ← combineRows (index + 1) (some table.columns) labels values
      return (columns, table.rows.map (label ++ ·) ++ rows)
  | _ :: _, value :: _ => .error (.nonUniformShape (.notTable index value.kind))
  | _, _ => .ok (columns, [])

/-- The tables one below the other, each row behind the label of its group. -/
def combine (labels : RowSet) (values : List (GroupValue ω)) : Except Error (Output ω) := do
  let (columns, rows) ← combineRows 0 none labels.rows values
  return .combined { columns := labels.columns ++ columns.getD [], rows }

/-- The values in all slots of a computation. -/
def filled (expected : Nat) (slots : List (Option (GroupValue ω))) :
    Except Error (List (GroupValue ω)) :=
  match slots.mapM id with
  | some values => .ok values
  | none => .error (.groupCountMismatch expected (slots.countP Option.isSome))

/-- The results of computations of these names, from a row of slots for each of them. -/
def assemble (labels : RowSet) (names : List (Option String))
    (slots : List (List (Option (GroupValue ω)))) : Except Error (Output ω) := do
  let columns ← slots.mapM (filled labels.rows.length)
  match names with
  | [none] => combine labels (columns.getLast?.getD [])
  | _ => return .perGroup labels ((names.map (·.getD "")).zip columns)

end Output

end SqlChain
