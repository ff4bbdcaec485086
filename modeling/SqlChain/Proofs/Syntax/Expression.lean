import SqlChain.Compiler.Term
import SqlChain.Proofs.Syntax.Grammar

/-!
# The operator tree of an expression

The tree that the text of an expression is meant to be read as, by recursion on the expression. A call
of a function has a tree of its own for every form that the function may have.
-/

namespace SqlChain

open Syntax

/-- An argument of a call with its tree, and with the trees of the candidates that it lists. -/
structure Node where
  expr : Expr
  tree : Option Tree
  candidates : Option (List Tree)

/-- A call of `c` lists candidates, and everything else is one. -/
def Node.of (e : Expr) (tree : Option Tree) (inner : List (Arg Node)) : Node where
  expr := e
  tree := tree
  candidates :=
    match e with
    | .call "c" _ _ => inner.mapM (·.value.tree)
    | _ => tree.map ([·])

namespace Node

def argument? (args : List (Arg Node)) (i : Nat) : Option Node := args[i]?.map Arg.value

def tree? (args : List (Arg Node)) (i : Nat) : Option Tree := do (← argument? args i).tree

def trees (args : List (Arg Node)) : Option (List Tree) := args.mapM (·.value.tree)

end Node

namespace Compiler

variable (c : Compiler) (g : Grammar)

def literalTree (value : Scalar) : Tree :=
  Syntax.literalTree (c.dialect.literal c.config.strictNumeric value)

def conditionalTree (condition value : Option Tree) (otherwise : Option (Option Tree)) :
    Option Tree := do
  let condition ← condition
  let value ← value
  match otherwise with
  | none => return .conditional condition value none
  | some otherwise => return .conditional condition value (some (← otherwise))

/-- Membership. Nothing is a member of an empty list. -/
def memberTree (operand : Option Tree) (candidates : Option (List Tree)) : Option Tree := do
  let operand ← operand
  match ← candidates with
  | [] => return c.literalTree (.boolean false)
  | candidates => return .member operand candidates

def substringTree (string : Tree) (start length : Int64) : Tree :=
  let number (n : Int64) : Tree := Syntax.literalTree (toString n.toInt)
  match c.dialect.substring with
  | .substr => .call "SUBSTR" [string, number start, number length]
  | .substring | .fromFor => .call "SUBSTRING" [string, number start, number length]

def separatedTrees (separator : Option String) (parts : List Tree) : List Tree :=
  match separator with
  | none => parts
  | some s => parts.intersperse (c.literalTree (.utf8 s))

def concatTree (separator : Option String) (parts : List Tree) : Option Tree :=
  match c.dialect.concat, c.separatedTrees separator parts with
  | .function, parts => some (.call "CONCAT" parts)
  | .operator, first :: rest => some (g.chain "||" first rest)
  | .operator, [] => none

def specialTree (function : String) (args : List (Arg Node)) : SpecialForm → Option Tree
  | .conditional => do
    let choice ← (Choice.ofArgs function args).toOption
    conditionalTree choice.condition.tree choice.value.tree (choice.otherwise.map Node.tree)
  | .isNull => return .isNull (← Node.tree? args 0)
  | .between => return .between (← Node.tree? args 0) (← Node.tree? args 1) (← Node.tree? args 2)
  | .inSet => c.memberTree (Node.tree? args 0) (do (← Node.argument? args 1).candidates)
  | .nDistinct => return .callDistinct "COUNT" (← Node.trees args)
  | .nullIf => return .call "NULL_IF" (← Node.trees args)
  | .substr => do
    let string ← Node.tree? args 0
    let start ← (integerLiteral function (← Node.argument? args 1).expr).toOption
    let stop ← (integerLiteral function (← Node.argument? args 2).expr).toOption
    return c.substringTree string start (substringLength start stop)
  | .pmin => return .call "MIN" (← Node.trees args)
  | .pmax => return .call "MAX" (← Node.trees args)
  | .logBase => do
    let operand ← Node.tree? args 0
    let base ← Node.tree? args 1
    return .binary "/" (.call "LOG" [operand]) (.call "LOG" [base])
  | .length => return .call c.dialect.lengthFunction [← Node.tree? args 0]
  | .concat separator => do c.concatTree g separator (← Node.trees args)
  | .cast type => return .cast (← Node.tree? args 0) type
  | .descending => none

def formTree (function : String) (args : List (Arg Node)) : SqlForm → Option Tree
  | .binary op => return .binary op.sql (← Node.tree? args 0) (← Node.tree? args 1)
  | .unary .not => return .not (← Node.tree? args 0)
  | .unary .negate => return .negate (← Node.tree? args 0)
  | .scalar sql | .aggregate sql => return .call sql (← Node.trees args)
  | .countStar => some (.callAll "COUNT")
  | .special form => c.specialTree g function args form
  | .ranking _ | .offset _ | .cumulative _ | .ntile => none

def callTree (function : String) (args : List (Arg Node)) : Option Tree :=
  match c.functions.lookup function args.length with
  | .unknown => return .call function (← Node.trees args)
  | .wrongArity _ => none
  | .found entry => c.formTree g function args entry.form

variable (qualifier : Option String)

mutual

def tree? : Expr → Option Tree
  | .column name => some (.column qualifier name)
  | .literal value => some (c.literalTree value)
  | .call function args _ => c.callTree g function (nodes args)
  | .conditional condition value none => conditionalTree (tree? condition) (tree? value) none
  | .conditional condition value (some otherwise) =>
    conditionalTree (tree? condition) (tree? value) (some (tree? otherwise))
  | .inList expr candidates => c.memberTree (tree? expr) (trees candidates)
  | .inExpr expr candidates => c.memberTree (tree? expr) ((tree? candidates).map ([·]))
  | .binary op left right => do return .binary op.sql (← tree? left) (← tree? right)
  | .unary .not operand => do return .not (← tree? operand)
  | .unary .negate operand => do return .negate (← tree? operand)

def nodesWithin : Expr → List (Arg Node)
  | .call _ args _ => nodes args
  | _ => []

def nodes : List (Arg Expr) → List (Arg Node)
  | [] => []
  | ⟨name, e⟩ :: rest => ⟨name, .of e (tree? e) (nodesWithin e)⟩ :: nodes rest

def trees : List Expr → Option (List Tree)
  | [] => some []
  | e :: rest => do return (← tree? e) :: (← trees rest)

end

theorem nodes_eq_map (args : List (Arg Expr)) :
    c.nodes g qualifier args = args.map fun arg =>
      ⟨arg.name,
        .of arg.value (c.tree? g qualifier arg.value) (c.nodesWithin g qualifier arg.value)⟩ := by
  induction args with
  | nil => rfl
  | cons arg rest ih => rw [nodes, ih, List.map_cons]

theorem trees_eq_mapM (es : List Expr) : c.trees g qualifier es = es.mapM (c.tree? g qualifier) := by
  induction es with
  | nil => rfl
  | cons e rest ih =>
      rw [trees, ih, List.mapM_cons]

/-! ## Expressions that are read back -/

def isNot : Expr → Bool
  | .unary .not _ => true
  | .call function args _ => (c.functions.form? function args.length).any (· == .unary .not)
  | _ => false

/-- The arguments of a call that stand without parentheses beside an operator other than `AND` and
`OR`. -/
def bareArguments {α : Type} (args : List α) : SqlForm → List α
  | .binary op => if guards op.sql then [] else args
  | .unary .negate | .special .between => args
  | .special .inSet => args.take 1
  | .special (.concat _) => match c.dialect.concat with
    | .function => []
    | .operator => args
  | _ => []

/-- The operands that stand without parentheses beside an operator other than `AND` and `OR`. -/
def bareOperands : Expr → List Expr
  | .binary op left right => if guards op.sql then [] else [left, right]
  | .unary .negate operand | .inList operand _ | .inExpr operand _ => [operand]
  | .call function args _ =>
    match c.functions.form? function args.length with
    | some form => c.bareArguments (args.map Arg.value) form
    | none => []
  | _ => []

def hasBareNot (e : Expr) : Bool := (c.bareOperands e).any c.isNot

/-- A call of a function that the table does not know. Only `c` may be called nevertheless, which lists
candidates. -/
def isForeign : Expr → Bool
  | .call function args _ => function != "c" && c.functions.lookup function args.length == .unknown
  | _ => false

end Compiler

end SqlChain
