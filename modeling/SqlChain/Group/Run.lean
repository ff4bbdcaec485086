import SqlChain.Error
import SqlChain.RowSet

/-!
# Runs of rows with the same key

Rows arrive in pages, ordered by their leading key columns. The last run of a page may go on in the
next one, so it is held back until a row with another key follows or the rows end. A key that
comes back after its run was closed shows that the rows are not ordered.
-/

namespace SqlChain

/-- Neighbouring rows with the same key. -/
structure Run where
  key : GroupKey
  rows : List Row
deriving DecidableEq, Repr

/-- A run that may still grow. The newest row comes first. -/
structure OpenRun where
  key : GroupKey
  newest : List Row
deriving DecidableEq, Repr

namespace OpenRun

def start (key : GroupKey) (row : Row) : OpenRun := ⟨key, [row]⟩

def push (run : OpenRun) (row : Row) : OpenRun := { run with newest := row :: run.newest }

def close (run : OpenRun) : Run := ⟨run.key, run.newest.reverse⟩

@[simp] theorem close_start (key : GroupKey) (row : Row) :
    (start key row).close = ⟨key, [row]⟩ := rfl

@[simp] theorem close_push (run : OpenRun) (row : Row) :
    (run.push row).close = ⟨run.key, run.close.rows ++ [row]⟩ := by
  simp [push, close]

end OpenRun

/-- What is remembered between two pages. -/
structure Carry where
  /-- The number of leading columns that make up a key. -/
  keys : Nat
  held : Option OpenRun
  finished : List GroupKey
deriving DecidableEq, Repr

namespace Carry

def start (keys : Nat) : Carry := { keys, held := none, finished := [] }

def carriedRows (c : Carry) : Nat := (c.held.map fun run => run.newest.length).getD 0

def isFinished (c : Carry) (key : GroupKey) : Bool := c.finished.any (GroupKey.equal key)

/-- Add a row, and release the run before it if the row begins a new one. -/
def pushRow (c : Carry) (row : Row) : Except Error (Option Run × Carry) :=
  if row.length < c.keys then
    .error (.invalidArgument "fetch_paged" (.shortRow row.length c.keys))
  else
    let key := row.take c.keys
    match c.held with
    | none =>
      if c.isFinished key then .error (.orderingViolation key)
      else .ok (none, { c with held := some (.start key row) })
    | some run =>
      if GroupKey.equal run.key key then .ok (none, { c with held := some (run.push row) })
      else if c.isFinished key then .error (.orderingViolation key)
      else
        .ok (some run.close,
          { c with held := some (.start key row), finished := run.key :: c.finished })

/-- Add rows, given the runs released so far, the latest of them first. The run that is held is
lost when a row is refused. -/
def pushRows (c : Carry) (released : List Run) : List Row → Except Error (List Run) × Carry
  | [] => (.ok released.reverse, c)
  | row :: rest =>
    match c.pushRow row with
    | .error e => (.error e, { c with held := none })
    | .ok (none, c) => c.pushRows released rest
    | .ok (some run, c) => c.pushRows (run :: released) rest

def pushPage (c : Carry) (page : List Row) : Except Error (List Run) × Carry :=
  c.pushRows [] page

/-- Release the run that is held. Nothing may be added after the last row. -/
def drain (c : Carry) : Option Run × Carry :=
  match c.held with
  | none => (none, c)
  | some run => (some run.close, { c with held := none, finished := run.key :: c.finished })

end Carry

end SqlChain
