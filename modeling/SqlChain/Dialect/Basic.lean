import SqlChain.Timestamp.Text

/-!
# Dialects of SQL

What differs between the backends for which a query is rendered.
-/

namespace SqlChain

/-- How a single quote, and possibly a backslash, is written within a string literal. -/
inductive StringEscape where
  | doubleQuote
  | backslash
deriving DecidableEq, Repr

/-- The spelling of the function that cuts out part of a string, by start and length. -/
inductive SubstringStyle where
  | substr
  | substring
  /-- `SUBSTRING(x FROM start FOR length)` -/
  | fromFor
deriving DecidableEq, Repr

inductive ConcatStyle where
  /-- `CONCAT(a, b)` -/
  | function
  /-- `a || b` -/
  | operator
deriving DecidableEq, Repr

structure Features where
  /-- Whether `OVER` is understood. Windows are emulated by subqueries where it is not. -/
  windowFunctions : Bool
  /-- Whether there are boolean literals. Booleans are written `1` and `0` where there are none. -/
  booleanLiterals : Bool
deriving DecidableEq, Repr

structure Dialect where
  name : String
  openQuote : Char
  closeQuote : Char
  /-- What stands for the closing quote within an identifier, if anything can. -/
  quoteEscape : Option String
  trueLiteral : String
  falseLiteral : String
  nullLiteral : String
  infinityLiteral : String
  negInfinityLiteral : String
  nanLiteral : String
  stringEscape : StringEscape
  /-- The form of timestamps, which are written in universal time. -/
  timestampFormat : List TimePart
  substring : SubstringStyle
  lengthFunction : String
  concat : ConcatStyle
  features : Features
deriving DecidableEq, Repr

namespace Dialect

def ansi : Dialect where
  name := "ansi"
  openQuote := '"'
  closeQuote := '"'
  quoteEscape := some "\"\""
  trueLiteral := "TRUE"
  falseLiteral := "FALSE"
  nullLiteral := "NULL"
  infinityLiteral := "'Infinity'"
  negInfinityLiteral := "'-Infinity'"
  nanLiteral := "'NaN'"
  stringEscape := .doubleQuote
  timestampFormat := TimePart.universal
  substring := .fromFor
  lengthFunction := "LENGTH"
  concat := .operator
  features := { windowFunctions := true, booleanLiterals := true }

def postgres : Dialect :=
  { ansi with name := "postgres", substring := .substr, concat := .function }

def sqlite : Dialect :=
  { ansi with
    name := "sqlite"
    substring := .substr
    features := { windowFunctions := true, booleanLiterals := false } }

/-- The grave accent, which quotes identifiers in some dialects. -/
def grave : Char := Char.ofNat 0x60

def mysql : Dialect :=
  { ansi with
    name := "mysql"
    openQuote := grave
    closeQuote := grave
    quoteEscape := some (String.ofList [grave, grave])
    stringEscape := .backslash
    substring := .substring
    lengthFunction := "CHAR_LENGTH"
    concat := .function }

/-- Versions before 8.0, which have no window functions. -/
def mysql57 : Dialect :=
  { mysql with
    name := "mysql57"
    features := { windowFunctions := false, booleanLiterals := true } }

def sqlServer : Dialect :=
  { ansi with
    name := "sqlserver"
    openQuote := '['
    closeQuote := ']'
    quoteEscape := some "]]"
    substring := .substring
    lengthFunction := "LEN"
    concat := .function
    features := { windowFunctions := true, booleanLiterals := false } }

/-- What any source behind a generic driver understands. -/
def odbc : Dialect :=
  { ansi with
    name := "odbc"
    quoteEscape := none
    substring := .substring
    concat := .function
    features := { windowFunctions := false, booleanLiterals := false } }

def withoutWindowFunctions (d : Dialect) : Dialect :=
  { d with features := { d.features with windowFunctions := false } }

end Dialect

inductive Backend where
  | ansi | postgres | sqlite | mysql | mysql57 | sqlServer | odbc
deriving DecidableEq, Repr

namespace Backend

def all : List Backend := [.ansi, .postgres, .sqlite, .mysql, .mysql57, .sqlServer, .odbc]

theorem mem_all (b : Backend) : b ∈ all := by cases b <;> decide

def dialect : Backend → Dialect
  | .ansi => .ansi
  | .postgres => .postgres
  | .sqlite => .sqlite
  | .mysql => .mysql
  | .mysql57 => .mysql57
  | .sqlServer => .sqlServer
  | .odbc => .odbc

def name (b : Backend) : String := b.dialect.name

def ofName? (name : String) : Option Backend := all.find? (·.name == name)

theorem ofName?_name (b : Backend) : ofName? b.name = some b := by cases b <;> decide

/-- The backend of this name in any case. -/
def ofText? (s : String) : Option Backend := ofName? s.toLower

end Backend

end SqlChain
