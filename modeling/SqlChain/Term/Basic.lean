/-!
# SQL terms

The operator tree of a compiled expression. Names and literals are kept as they are written, and
what remains is where parentheses go: a form with operators of its own gets one pair of them when
it is an operand of another, and a call never does.
-/

namespace SqlChain

inductive Term where
  | column (text : String)
  | literal (text : String)
  | apply (function : String) (args : List Term)
  | countStar
  | countDistinct (args : List Term)
  /-- A substring by start and length, with words between the arguments. -/
  | substringFor (string : Term) (start length : Int64)
  | cast (operand : Term) (type : String)
  | conditional (condition value : Term) (otherwise : Option Term)
  | negate (operand : Term)
  | not (operand : Term)
  | isNull (operand : Term)
  | binary (op : String) (left right : Term)
  | between (operand low high : Term)
  | inList (operand : Term) (items : List Term)
  | inTerm (operand items : Term)
  | concat (parts : List Term)
  /-- A window of rows that agree in the partition, running from its start if so marked. -/
  | windowed (body : Term) (partition : List String) (order : List Term) (running : Bool)
  /-- A descending key of an ordering. -/
  | descending (key : Term)
deriving Repr

namespace Term

def parenthesised (s : String) : String := "(" ++ s ++ ")"

def parenthesisedIf (nested : Bool) (s : String) : String :=
  if nested then parenthesised s else s

def listed (texts : List String) : String := String.intercalate ", " texts

/-- A minus sign in front of a term. Two of them in a row would begin a comment. -/
def negated (operand : String) : String :=
  if operand.toList.head? = some '-' then "-" ++ parenthesised operand else "-" ++ operand

def partitionClause (partition : List String) : List String :=
  if partition.isEmpty then [] else ["PARTITION BY " ++ listed partition]

def orderClause (order : List String) (running : Bool) : List String :=
  if order.isEmpty then []
  else ("ORDER BY " ++ listed order) :: if running then ["ROWS UNBOUNDED PRECEDING"] else []

mutual

/-- The text of a term, as an operand of an enclosing operator or by itself. -/
def text (nested : Bool) : Term → String
  | .column s => s
  | .literal s => s
  | .apply function args => function ++ parenthesised (listed (texts false args))
  | .countStar => "COUNT(*)"
  | .countDistinct args => "COUNT" ++ parenthesised ("DISTINCT " ++ listed (texts false args))
  | .substringFor string start length =>
    "SUBSTRING" ++
      parenthesised (string.text false ++ " FROM " ++ toString start.toInt ++ " FOR " ++
        toString length.toInt)
  | .cast operand type => "CAST" ++ parenthesised (operand.text false ++ " AS " ++ type)
  | .conditional condition value none =>
    "CASE WHEN " ++ parenthesised (condition.text false) ++ " THEN " ++
      parenthesised (value.text false) ++ " END"
  | .conditional condition value (some otherwise) =>
    "CASE WHEN " ++ parenthesised (condition.text false) ++ " THEN " ++
      parenthesised (value.text false) ++ " ELSE " ++ parenthesised (otherwise.text false) ++
      " END"
  | .negate operand => negated (operand.text true)
  | .not operand => "NOT" ++ parenthesised (operand.text false)
  | .isNull operand => parenthesised (parenthesised (operand.text false) ++ " IS NULL")
  | .binary op left right =>
    parenthesisedIf nested (left.text true ++ " " ++ op ++ " " ++ right.text true)
  | .between operand low high =>
    parenthesisedIf nested
      (operand.text true ++ " BETWEEN " ++ low.text true ++ " AND " ++ high.text true)
  | .inList operand items =>
    parenthesisedIf nested
      (operand.text true ++ " IN " ++ parenthesised (listed (texts false items)))
  | .inTerm operand items =>
    parenthesisedIf nested (operand.text true ++ " IN " ++ items.text true)
  | .concat parts => parenthesisedIf nested (String.intercalate " || " (texts true parts))
  | .windowed body partition order running =>
    body.text false ++ " OVER " ++
      parenthesised (String.intercalate " "
        (partitionClause partition ++ orderClause (texts true order) running))
  | .descending key => key.text true ++ " DESC"

def texts (nested : Bool) : List Term → List String
  | [] => []
  | t :: rest => t.text nested :: texts nested rest

end

theorem texts_eq_map (nested : Bool) (ts : List Term) : texts nested ts = ts.map (text nested) := by
  induction ts with
  | nil => rfl
  | cons t ts ih => simp [texts, ih]

end Term

end SqlChain
