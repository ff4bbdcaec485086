import SqlChain.Json.Basic

/-!
# JSON texts as trees

A tree is what the grammar sees in a text. A number that is too large and a string with half of a
surrogate pair are parts of a tree, but they have no value, and a tree with such a part has none
either. So a part that nobody asks for can be left out before the value is taken.
-/

namespace SqlChain

inductive JsonTree where
  | null
  | bool (b : Bool)
  | number (n : Option JsonNumber)
  | string (s : Option String)
  | array (items : List JsonTree)
  | object (fields : List (Option String × JsonTree))
deriving Repr

namespace JsonTree

mutual

/-- The value of a tree, if no part of it has more than `depth` arrays and objects around it. -/
def value? (depth : Nat) : JsonTree → Option Json
  | .null => some .null
  | .bool b => some (.bool b)
  | .number n => n.map .number
  | .string s => s.map .string
  | .array items =>
    match depth with
    | 0 => none
    | depth + 1 => (itemValues? depth items).map .array
  | .object fields =>
    match depth with
    | 0 => none
    | depth + 1 => (fieldValues? depth fields).map .object

def itemValues? (depth : Nat) : List JsonTree → Option (List Json)
  | [] => some []
  | item :: rest => do return (← item.value? depth) :: (← itemValues? depth rest)

def fieldValues? (depth : Nat) :
    List (Option String × JsonTree) → Option (List (String × Json))
  | [] => some []
  | (key, item) :: rest => do return (← key, ← item.value? depth) :: (← fieldValues? depth rest)

end

/-- An object without the fields of other names. A field whose name has no value stays. -/
def keepFields (keep : String → Bool) : JsonTree → JsonTree
  | .object fields => .object (fields.filter fun (key, _) => key.all keep)
  | tree => tree

/-- An object with what stands under a name changed. -/
def mapField (name : String) (f : JsonTree → JsonTree) : JsonTree → JsonTree
  | .object fields =>
    .object (fields.map fun (key, item) => (key, if key = some name then f item else item))
  | tree => tree

end JsonTree

end SqlChain
