import SqlChain.Dialect.Basic
import SqlChain.Scalar

/-!
# Literals

The text of a value in SQL. Numbers may be required to carry a decimal point.
-/

namespace SqlChain.Dialect

/-- How a character is written between single quotes. -/
def escapeChar : StringEscape → Char → List Char
  | .doubleQuote, c => if c = '\'' then ['\'', '\''] else [c]
  | .backslash, c => if c = '\'' ∨ c = '\\' then ['\\', c] else [c]

def stringLiteral (d : Dialect) (s : String) : String :=
  String.ofList ('\'' :: s.toList.flatMap (escapeChar d.stringEscape) ++ ['\''])

def booleanLiteral (d : Dialect) (b : Bool) : String :=
  if d.features.booleanLiterals then if b then d.trueLiteral else d.falseLiteral
  else if b then "1" else "0"

/-- A number that is neither infinite nor a NaN is written without an exponent. -/
def floatLiteral (d : Dialect) (decimalPoint : Bool) (x : Binary64) : String :=
  if x.isNaN then d.nanLiteral
  else if x.isInfinite then if x.negative then d.negInfinityLiteral else d.infinityLiteral
  else if decimalPoint && !x.text.toList.contains '.' then x.text ++ ".0"
  else x.text

def literal (d : Dialect) (decimalPoint : Bool) : Scalar → String
  | .null => d.nullLiteral
  | .boolean b => d.booleanLiteral b
  | .int64 n => toString n.toInt ++ if decimalPoint then ".0" else ""
  | .float64 x => d.floatLiteral decimalPoint x
  | .utf8 s => d.stringLiteral s
  | .timestamp t => "'" ++ t.utc.format d.timestampFormat ++ "'"

end SqlChain.Dialect
