/-!
# Identifiers

A column that is selected, and the name it is given if it is not to keep its own.
-/

namespace SqlChain

structure Ident where
  name : String
  newName : Option String
deriving DecidableEq, Repr

namespace Ident

def ofName (name : String) : Ident := { name, newName := none }

/-- The name under which the column is visible afterwards. -/
def output (i : Ident) : String := i.newName.getD i.name

@[simp] theorem output_ofName (name : String) : (ofName name).output = name := rfl

def text (i : Ident) : String :=
  match i.newName with
  | none => i.name
  | some newName => i.name ++ " AS " ++ newName

end Ident

end SqlChain
