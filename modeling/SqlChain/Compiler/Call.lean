import SqlChain.Compiler.Branches
import SqlChain.Compiler.Operand

/-!
# Calls

A call is compiled by the form that the function table has for its name and its number of
arguments. A function that the table does not know is left as it is, unless that is an error.
-/

namespace SqlChain.Compiler

/-- The integer that a literal stands for. -/
def integerLiteral (function : String) : Expr → Except Error Int64
  | .literal (.int64 n) => .ok n
  | .literal (.float64 x) =>
    match x.toInt64? with
    | some n => .ok n
    | none =>
      .error (.invalidArgument function (.notIntegerLiteral (.literal (.float64 x))))
  | other => .error (.invalidArgument function (.notIntegerLiteral other))

/-- The number of characters from `start` to `stop`, both included. -/
def substringLength (start stop : Int64) : Int64 :=
  saturate (max 0 ((saturate (stop.toInt - start.toInt)).toInt + 1))

def conditional (condition value : Compiled) (otherwise : Option Compiled) : Compiled :=
  fun frame => do
    let condition ← condition frame
    let value ← value frame
    match otherwise with
    | none => return .conditional condition value none
    | some otherwise => return .conditional condition value (some (← otherwise frame))

/-- Membership. Nothing is a member of an empty list. -/
def membership (c : Compiler) (operand : Compiled) (candidates : Candidates) : Compiled :=
  fun frame => do
    let operand ← operand frame
    match candidates with
    | .each [] => return c.literal (.boolean false)
    | .each items => return .inList operand (← items.mapM fun item => item frame)
    | .value items => return .inTerm operand (← items frame)

def substring (c : Compiler) (string : Term) (start length : Int64) : Term :=
  let number (n : Int64) : Term := .literal (toString n.toInt)
  match c.dialect.substring with
  | .substr => .apply "SUBSTR" [string, number start, number length]
  | .substring => .apply "SUBSTRING" [string, number start, number length]
  | .fromFor => .substringFor string start length

/-- Put the separator, if there is one, between the parts. -/
def separated (separator : Option Term) (parts : List Term) : List Term :=
  match separator with
  | none => parts
  | some separator => parts.intersperse separator

def special (c : Compiler) (qualifier : Option String) (function : String)
    (args : List (Arg Operand)) (frame : Option Frame) : SpecialForm → CompileM Term
  | .conditional => do
    let choice ← attempt (Choice.ofArgs function args)
    conditional choice.condition.value choice.value.value (choice.otherwise.map (·.value)) frame
  | .isNull => do
    return .isNull (← (← argument function args 0).value frame)
  | .between => do
    let operand ← (← argument function args 0).value frame
    let low ← (← argument function args 1).value frame
    let high ← (← argument function args 2).value frame
    return .between operand low high
  | .inSet => do
    let operand ← argument function args 0
    let items ← argument function args 1
    c.membership operand.value items.candidates frame
  | .nDistinct => do
    c.withWindowIfAllowed qualifier frame (.countDistinct (← values args none))
  | .nullIf => do
    return .apply "NULL_IF" (← values args frame)
  | .substr => do
    let string ← argument function args 0
    let start ← attempt (integerLiteral function (← argument function args 1).expr)
    let stop ← attempt (integerLiteral function (← argument function args 2).expr)
    return c.substring (← string.value frame) start (substringLength start stop)
  | .pmin => do
    return .apply "MIN" (← values args frame)
  | .pmax => do
    return .apply "MAX" (← values args frame)
  | .logBase => do
    let operand ← (← argument function args 0).value frame
    let base ← (← argument function args 1).value frame
    return .binary "/" (.apply "LOG" [operand]) (.apply "LOG" [base])
  | .length => do
    return .apply c.dialect.lengthFunction [← (← argument function args 0).value frame]
  | .concat separator => do
    let parts := separated (separator.map fun s => c.literal (.utf8 s)) (← values args frame)
    match c.dialect.concat with
    | .function => return .apply "CONCAT" parts
    | .operator => return .concat parts
  | .cast type => do
    return .cast (← (← argument function args 0).value frame) type
  | .descending => throw (.invalidArgument function .onlyForOrdering)

def writeAs (c : Compiler) (qualifier : Option String) (function : String)
    (args : List (Arg Operand)) (frame : Option Frame) : SqlForm → CompileM Term
  | .binary op => do
    let left ← (← argument function args 0).value frame
    let right ← (← argument function args 1).value frame
    return .binary op.sql left right
  | .unary .not => do
    return .not (← (← argument function args 0).value frame)
  | .unary .negate => do
    return .negate (← (← argument function args 0).value frame)
  | .scalar sql => do
    return .apply sql (← values args frame)
  | .aggregate sql => do
    c.withWindowIfAllowed qualifier frame (.apply sql (← values args none))
  | .countStar => c.withWindowIfAllowed qualifier frame .countStar
  | .ranking sql => do
    let frame ← requireWindow function frame
    match args with
    | [] => c.withWindow qualifier frame (.apply sql []) frame.order false
    | arg :: _ => c.withWindow qualifier frame (.apply sql []) (do return [← arg.value.key]) false
  | .offset sql => do
    let frame ← requireWindow function frame
    c.withWindow qualifier frame (.apply sql (← values args none)) frame.order false
  | .cumulative sql => do
    let frame ← requireWindow function frame
    c.withWindow qualifier frame (.apply sql (← values args none)) frame.order true
  | .ntile => do
    let frame ← requireWindow function frame
    let key ← argument function args 0
    let buckets ← (← argument function args 1).value none
    c.withWindow qualifier frame (.apply "NTILE" [buckets]) (do return [← key.key]) false
  | .special form => c.special qualifier function args frame form

def warnIfNamed (function : String) (args : List (Arg Operand)) : CompileM Unit :=
  match args.filterMap Arg.name with
  | [] => return
  | names => warn (.namesIgnored function names)

/-- The operator that a name between percent signs stands for. -/
def customOperator? (function : String) : Option String :=
  match function.toList with
  | '%' :: rest =>
    let word := rest.dropLast
    if rest.getLast? = some '%' ∧ word ≠ [] ∧ word.all fun c => c.isAlpha || c == '_' then
      some (String.ofList (word.map Char.toUpper))
    else none
  | _ => none

/-- A function that is not known, which is left as it is unless that is an error. -/
def verbatim (c : Compiler) (function : String) (args : List (Arg Operand))
    (frame : Option Frame) : CompileM Term := do
  if c.config.strictSql then throw (.unknownFunction function args.length)
  warnIfNamed function args
  match customOperator? function, args with
  | some op, [left, right] =>
    let left ← left.value.value frame
    let right ← right.value.value frame
    return .binary op left right
  | _, _ => return .apply function (← values args frame)

def call (c : Compiler) (qualifier : Option String) (function : String)
    (args : List (Arg Operand)) (frame : Option Frame) : CompileM Term :=
  match c.functions.lookup function args.length with
  | .unknown => c.verbatim function args frame
  | .wrongArity known => throw (.wrongArity function known args.length)
  | .found entry => do
    if entry.form ≠ .special .conditional then warnIfNamed function args
    c.writeAs qualifier function args frame entry.form

end SqlChain.Compiler
