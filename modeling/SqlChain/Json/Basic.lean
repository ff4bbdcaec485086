import SqlChain.Binary64.Basic

/-!
# JSON values

Numbers without fraction and exponent are integers as long as they fit into 64 bits. The fields of
an object are kept as they were given, so that a repeated field can be told.
-/

namespace SqlChain

inductive JsonNumber where
  | integer (n : Int)
  | float (x : Binary64)
deriving DecidableEq, Repr

inductive Json where
  | null
  | bool (b : Bool)
  | number (n : JsonNumber)
  | string (s : String)
  | array (items : List Json)
  | object (fields : List (String × Json))
deriving Repr

namespace Json

def integer (n : Int) : Json := .number (.integer n)

def natural (n : Nat) : Json := .integer n

def strings (items : List String) : Json := .array (items.map .string)

/-- The object with the fields that are there. -/
def ofFields (fields : List (String × Option Json)) : Json :=
  .object (fields.filterMap fun (key, value) => value.map (key, ·))

end Json

end SqlChain
