import SqlChain.Dialect.Basic
import SqlChain.Expr.Text
import SqlChain.Function.Arity
import SqlChain.Text.Quoted

/-!
# Errors and warnings

What can go wrong, by its cause. `Error.message` and `Warning.message` are the only places where
it is put into words.
-/

namespace SqlChain

open Text

/-- Why a setting or a value for one is refused. -/
inductive SettingFault where
  | notBoolean (value : Scalar)
  | notInteger (value : Scalar)
  | notNatural (value : Int64)
  | notString (value : Scalar)
  | unknownSetting (name : String)
  | chunkTooSmall (least : Nat)
  | chunkTooLarge (most : Nat)
  | unknownBackend (name : String)
deriving DecidableEq, Repr

namespace SettingFault

def message : SettingFault → String
  | .notBoolean value => "Not a bool: " ++ value.text
  | .notInteger value => "Not an integer: " ++ value.text
  | .notNatural value => "Not a non-negative integer: " ++ toString value.toInt
  | .notString value => "Not a string: " ++ value.text
  | .unknownSetting name => "Missing setting for '" ++ name ++ "'"
  | .chunkTooSmall least => "Chunk size cannot be less than " ++ toString least
  | .chunkTooLarge most => "Chunk size cannot be greater than " ++ toString most
  | .unknownBackend name =>
    "Unknown backend '" ++ name ++ "', expected one of: " ++
      String.intercalate ", " (Backend.all.map Backend.name)

end SettingFault

/-- Why an argument of a function or an operation is refused. -/
inductive ArgumentFault where
  | notGrouped
  | duplicateOutput (column : String)
  | assignsGroup (column : String)
  | onlyForOrdering
  | notIntegerLiteral (given : Expr)
  | unknownName (name : String)
  | repeatedName (name : String)
  | missingBranch
  | shortRow (width keys : Nat)
deriving Repr

namespace ArgumentFault

def message : ArgumentFault → String
  | .notGrouped => "query is not grouped"
  | .duplicateOutput column => "duplicate output column '" ++ column ++ "'"
  | .assignsGroup column => "cannot assign to grouping column '" ++ column ++ "'"
  | .onlyForOrdering => "only valid when ordering"
  | .notIntegerLiteral given => "expected an integer literal, got " ++ given.text
  | .unknownName name => "unknown argument name '" ++ name ++ "'"
  | .repeatedName name => "argument '" ++ name ++ "' given more than once"
  | .missingBranch => "missing condition or value"
  | .shortRow width keys =>
    "row has " ++ toString width ++ " column(s), expected at least " ++ toString keys ++
      " grouping column(s)"

end ArgumentFault

/-- Why a list of computations is refused. -/
inductive ComputationsFault where
  | none
  | severalUnnamed (count : Nat)
  | duplicateName (name : String)
deriving DecidableEq, Repr

namespace ComputationsFault

def message : ComputationsFault → String
  | .none => "at least one computation is required"
  | .severalUnnamed count =>
    "only a single unnamed computation is allowed, got " ++ toString count
  | .duplicateName name => "duplicate computation name " ++ quoted name

end ComputationsFault

/-- The kinds of values that a computation returns. -/
inductive ValueKind where
  | table | scalar | client
deriving DecidableEq, Repr

namespace ValueKind

def text : ValueKind → String
  | .table => "table"
  | .scalar => "scalar"
  | .client => "opaque value"

end ValueKind

/-- Why the results of a computation do not fit together. -/
inductive ShapeFault where
  | notTable (group : Nat) (kind : ValueKind)
  | otherColumns (group : Nat) (columns expected : List String)
  | notScalar (computation : String) (kind : ValueKind)
deriving DecidableEq, Repr

namespace ShapeFault

def message : ShapeFault → String
  | .notTable group kind =>
    "group " ++ toString group ++ " returned a " ++ kind.text ++ ", expected a table"
  | .otherColumns group columns expected =>
    "group " ++ toString group ++ " returned columns " ++ quotedList columns ++ ", expected " ++
      quotedList expected
  | .notScalar computation kind =>
    "computation '" ++ computation ++ "' returned a " ++ kind.text ++ ", expected a scalar"

end ShapeFault

inductive Error where
  | invalidIdentifier (name : String) (quote : Char) (dialect : String)
  | unknownFunction (name : String) (arity : Nat)
  | wrongArity (name : String) (expected : List Arity) (given : Nat)
  /-- A table entry accepts fewer arguments than its form reads. -/
  | missingArgument (name : String) (position : Nat)
  | windowNotAllowed (name : String)
  | unsupportedEmulation (name dialect : String)
  | invalidArgument (function : String) (fault : ArgumentFault)
  | unknownColumn (name : String) (available : List String)
  | mixedNaming (names : List (Option String))
  | invalidComputations (fault : ComputationsFault)
  | nonUniformShape (fault : ShapeFault)
  | orderingViolation (key : GroupKey)
  | groupCountMismatch (expected found : Nat)
  | cancelled (group : Nat)
  | computation (name : String) (group : Nat) (reason : String)
  | invalidSetting (fault : SettingFault)
  | connection (reason : String)
deriving Repr

namespace Error

def message : Error → String
  | .invalidIdentifier name quote dialect =>
    "Identifier '" ++ name ++ "' contains the closing quote '" ++ quote.toString ++ "' and " ++
      dialect ++ " has no escape for it"
  | .unknownFunction name arity =>
    "Unknown function '" ++ name ++ "' with " ++ toString arity ++ " argument(s)"
  | .wrongArity name expected given =>
    "Function '" ++ name ++ "' expects " ++ String.intercalate " or " (expected.map Arity.text) ++
      " argument(s), got " ++ toString given
  | .missingArgument name position =>
    "Function '" ++ name ++ "' has no argument " ++ toString position
  | .windowNotAllowed name => "Window function '" ++ name ++ "' is not allowed here"
  | .unsupportedEmulation name dialect =>
    "Window function '" ++ name ++ "' cannot be emulated on " ++ dialect
  | .invalidArgument function fault =>
    "Invalid argument for '" ++ function ++ "': " ++ fault.message
  | .unknownColumn name available =>
    "Unknown column '" ++ name ++ "', available: " ++ quotedList available
  | .mixedNaming names =>
    "Computations must be either all named or all unnamed: " ++ quotedOptions names
  | .invalidComputations fault => "Invalid computations: " ++ fault.message
  | .nonUniformShape fault => "Computation results have a non-uniform shape: " ++ fault.message
  | .orderingViolation key =>
    "Rows are not ordered by group keys, key " ++ key.text ++
      " appeared after its group was finalized"
  | .groupCountMismatch expected found =>
    "Expected " ++ toString expected ++ " group(s) from the label table, traversal found " ++
      toString found
  | .cancelled group => "Traversal cancelled before group " ++ toString group
  | .computation name group reason =>
    "Computation '" ++ name ++ "' failed on group " ++ toString group ++ ": " ++ reason
  | .invalidSetting fault => "Invalid setting: " ++ fault.message
  | .connection reason => reason

end Error

/-- Problems that do not stop a query from being rendered. -/
inductive Warning where
  | namesIgnored (function : String) (names : List String)
  | orderingDropped (key : Expr)
deriving Repr

namespace Warning

def message : Warning → String
  | .namesIgnored function names =>
    "Named arguments (" ++ String.intercalate ", " names ++ ") ignored for '" ++ function ++
      "', matching by position"
  | .orderingDropped key =>
    "Dropping ordering by " ++ key.text ++ ", its columns are no longer selected"

end Warning

end SqlChain
