import SqlChain.Compiler.Context
import SqlChain.Dialect.Literal
import SqlChain.Function.Builtin
import SqlChain.Term.Basic

/-!
# Operands

What an argument of a call compiles to depends on how the call uses it: over a window or without
one, as a key of an ordering, or as a list of candidates. An operand has all of them ready. A window
is attached to a call only here, and the arguments of such a call are compiled without one, so that
windows do not nest.
-/

namespace SqlChain

/-- A window whose ordering is still to be compiled. -/
structure Frame where
  partition : List String
  order : CompileM (List Term)

/-- What an expression compiles to, where a window may be allowed. -/
abbrev Compiled := Option Frame → CompileM Term

/-- What membership is tested against. -/
inductive Candidates where
  | each (items : List Compiled)
  | value (items : Compiled)

/-- An argument in all the ways in which a call may use it. -/
structure Operand where
  expr : Expr
  value : Compiled
  key : CompileM Term
  candidates : Candidates

/-- An argument given what it compiles to and, if it is a call, the operands of that call. A call
of `desc` marks a key as descending, and a call of `c` lists candidates. -/
def Operand.of (e : Expr) (value : Compiled) (inner : List (Arg Operand)) : Operand where
  expr := e
  value := value
  key :=
    match e, inner with
    | .call "desc" _ _, [arg] => do return .descending (← arg.value.value none)
    | _, _ => value none
  candidates :=
    match e with
    | .call "c" _ _ => .each (inner.map fun arg => arg.value.value)
    | .literal _ => .each [value]
    | _ => .value value

structure Compiler where
  dialect : Dialect
  config : Config
  functions : FunctionTable

namespace Compiler

def builtin (dialect : Dialect) (config : Config) : Compiler :=
  { dialect, config, functions := .builtin }

def literal (c : Compiler) (value : Scalar) : Term :=
  .literal (c.dialect.literal c.config.strictNumeric value)

def column (c : Compiler) (qualifier : Option String) (name : String) : CompileM String :=
  attempt (c.dialect.quoteQualified qualifier name)

def withWindow (c : Compiler) (qualifier : Option String) (frame : Frame) (body : Term)
    (order : CompileM (List Term)) (running : Bool) : CompileM Term := do
  let partition ← frame.partition.mapM (c.column qualifier)
  let keys ← order
  return .windowed body partition keys running

/-- Attach the window to an aggregate where windows are allowed. -/
def withWindowIfAllowed (c : Compiler) (qualifier : Option String) (frame : Option Frame)
    (body : Term) : CompileM Term :=
  match frame with
  | none => return body
  | some frame => c.withWindow qualifier frame body (pure []) false

def requireWindow (function : String) : Option Frame → CompileM Frame
  | some frame => return frame
  | none => throw (.windowNotAllowed function)

def argument (function : String) (args : List (Arg Operand)) (i : Nat) : CompileM Operand :=
  match args[i]? with
  | some arg => return arg.value
  | none => throw (.missingArgument function i)

def values (args : List (Arg Operand)) (frame : Option Frame) : CompileM (List Term) :=
  args.mapM fun arg => arg.value.value frame

end Compiler

end SqlChain
