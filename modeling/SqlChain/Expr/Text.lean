import SqlChain.Expr.Basic

/-!
# Expressions in messages

The text by which a message names an expression. It shows the structure and is not SQL.
-/

namespace SqlChain.Expr

/-- A literal as it appears in messages, strings being put in single quotes as they are. -/
def literalText : Scalar → String
  | .utf8 s => "'" ++ s ++ "'"
  | value => value.text

def argText (name : Option String) (value : String) : String :=
  match name with
  | none => value
  | some name => name ++ " = " ++ value

mutual

def text : Expr → String
  | .column name => name
  | .literal value => literalText value
  | .call function args _ =>
    function ++ "(" ++ String.intercalate ", " (textsOfArgs args) ++ ")"
  | .conditional condition value none => "if (" ++ condition.text ++ ") " ++ value.text
  | .conditional condition value (some e) =>
    "if (" ++ condition.text ++ ") " ++ value.text ++ " else " ++ e.text
  | .inList expr candidates =>
    expr.text ++ " %in% c(" ++ String.intercalate ", " (textsOfList candidates) ++ ")"
  | .inExpr expr candidates => expr.text ++ " %in% " ++ candidates.text
  | .binary op left right => "(" ++ left.text ++ " " ++ op.sql ++ " " ++ right.text ++ ")"
  | .unary op operand => op.sign ++ operand.text

def textsOfArgs : List (Arg Expr) → List String
  | [] => []
  | ⟨name, e⟩ :: rest => argText name e.text :: textsOfArgs rest

def textsOfList : List Expr → List String
  | [] => []
  | e :: rest => e.text :: textsOfList rest

end

end SqlChain.Expr
