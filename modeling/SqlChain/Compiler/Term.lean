import SqlChain.Compiler.Call

/-!
# Compilation of expressions

An expression is compiled to a term by recursion on it. The text of the term depends on whether it
stands by itself or is the operand of an operator.
-/

namespace SqlChain.Compiler

mutual

def term (c : Compiler) (qualifier : Option String) : Expr → Compiled
  | .column name, _ => do return .column (← c.column qualifier name)
  | .literal value, _ => return c.literal value
  | .call function args _, frame => c.call qualifier function (c.operands qualifier args) frame
  | .conditional condition value none, frame =>
    conditional (c.term qualifier condition) (c.term qualifier value) none frame
  | .conditional condition value (some otherwise), frame =>
    conditional (c.term qualifier condition) (c.term qualifier value)
      (some (c.term qualifier otherwise)) frame
  | .inList expr candidates, frame =>
    c.membership (c.term qualifier expr) (.each (c.terms qualifier candidates)) frame
  | .inExpr expr candidates, frame =>
    c.membership (c.term qualifier expr) (.value (c.term qualifier candidates)) frame
  | .binary op left right, frame => do
    let left ← c.term qualifier left frame
    let right ← c.term qualifier right frame
    return .binary op.sql left right
  | .unary .not operand, frame => do return .not (← c.term qualifier operand frame)
  | .unary .negate operand, frame => do return .negate (← c.term qualifier operand frame)

/-- The operands of a call. -/
def operandsWithin (c : Compiler) (qualifier : Option String) : Expr → List (Arg Operand)
  | .call _ args _ => c.operands qualifier args
  | _ => []

def operands (c : Compiler) (qualifier : Option String) : List (Arg Expr) → List (Arg Operand)
  | [] => []
  | ⟨name, e⟩ :: rest =>
    ⟨name, .of e (c.term qualifier e) (c.operandsWithin qualifier e)⟩ :: c.operands qualifier rest

def terms (c : Compiler) (qualifier : Option String) : List Expr → List Compiled
  | [] => []
  | e :: rest => c.term qualifier e :: c.terms qualifier rest

end

theorem operands_eq_map (c : Compiler) (qualifier : Option String) (args : List (Arg Expr)) :
    c.operands qualifier args = args.map fun arg =>
      ⟨arg.name,
        .of arg.value (c.term qualifier arg.value) (c.operandsWithin qualifier arg.value)⟩ := by
  induction args with
  | nil => rfl
  | cons arg rest ih => rw [operands, ih, List.map_cons]

theorem terms_eq_map (c : Compiler) (qualifier : Option String) (es : List Expr) :
    c.terms qualifier es = es.map (c.term qualifier) := by
  induction es with
  | nil => rfl
  | cons e rest ih => rw [terms, ih, List.map_cons]

/-- A key of an ordering, which may be marked as descending. -/
def keyTerm (c : Compiler) (qualifier : Option String) (e : Expr) (frame : Option Frame) :
    CompileM Term :=
  match e.descending? with
  | some operand => do return .descending (← c.term qualifier operand frame)
  | none => c.term qualifier e frame

def frame (c : Compiler) (context : Context) : Option Frame :=
  context.window.map fun window =>
    { partition := window.partition
      order := window.order.mapM fun key => c.keyTerm context.qualifier key none }

/-- The text of an expression by itself. -/
def compile (c : Compiler) (context : Context) (e : Expr) : CompileM String := do
  return (← c.term context.qualifier e (c.frame context)).text false

/-- The text of an expression as an operand of an operator. -/
def compileOperand (c : Compiler) (context : Context) (e : Expr) : CompileM String := do
  return (← c.term context.qualifier e (c.frame context)).text true

def compileKey (c : Compiler) (context : Context) (e : Expr) : CompileM String := do
  return (← c.keyTerm context.qualifier e (c.frame context)).text true

def compileKeys (c : Compiler) (context : Context) (keys : List Expr) : CompileM (List String) :=
  keys.mapM (c.compileKey context)

end SqlChain.Compiler
