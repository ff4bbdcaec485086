import SqlChain.Error
import SqlChain.Ident

/-!
# Quoted identifiers

An identifier stands between the quotes of the dialect. A closing quote within it is replaced by
the escape, and where the dialect has none such an identifier cannot be written.
-/

namespace SqlChain.Dialect

/-- The characters of a name with every closing quote replaced. -/
def escapeQuote (close : Char) (escape : List Char) (name : List Char) : List Char :=
  name.flatMap fun c => if c = close then escape else [c]

theorem escapeQuote_eq_self {close : Char} {escape name : List Char} (h : close ∉ name) :
    escapeQuote close escape name = name := by
  induction name with
  | nil => rfl
  | cons c cs ih =>
    rw [List.mem_cons, not_or] at h
    simp [escapeQuote, Ne.symm h.1] at ih ⊢
    exact ih h.2

def quoteIdentifier (d : Dialect) (name : String) : Except Error String :=
  let within (cs : List Char) := String.ofList (d.openQuote :: cs ++ [d.closeQuote])
  if d.closeQuote ∈ name.toList then
    match d.quoteEscape with
    | some escape => .ok (within (escapeQuote d.closeQuote escape.toList name.toList))
    | none => .error (.invalidIdentifier name d.closeQuote d.name)
  else .ok (within name.toList)

/-- A name behind the quoted name of the table it belongs to, if one is given. -/
def quoteQualified (d : Dialect) (qualifier : Option String) (name : String) :
    Except Error String :=
  match qualifier with
  | none => d.quoteIdentifier name
  | some qualifier => do
    let qualifier ← d.quoteIdentifier qualifier
    let name ← d.quoteIdentifier name
    return qualifier ++ "." ++ name

def renderIdent (d : Dialect) (ident : Ident) : Except Error String := do
  let name ← d.quoteIdentifier ident.name
  match ident.newName with
  | none => return name
  | some newName =>
    let newName ← d.quoteIdentifier newName
    return name ++ " AS " ++ newName

def renderIdents (d : Dialect) (idents : List Ident) : Except Error String := do
  let rendered ← idents.mapM d.renderIdent
  return String.intercalate ", " rendered

end SqlChain.Dialect
