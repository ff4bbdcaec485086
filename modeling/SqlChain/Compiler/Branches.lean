import SqlChain.Error

/-!
# Arguments of a conditional

A conditional called by name takes a condition, a value and perhaps an alternative. Each may be
given under one of its names, and the others follow in order.
-/

namespace SqlChain

inductive Branch where
  | condition | value | otherwise
deriving DecidableEq, Repr

namespace Branch

def all : List Branch := [.condition, .value, .otherwise]

/-- The part that an argument of this name is for. -/
def ofName? : String → Option Branch
  | "condition" | "test" | "cond" => some .condition
  | "true" | "yes" | "then" => some .value
  | "false" | "no" | "else" => some .otherwise
  | _ => none

end Branch

structure Choice (α : Type) where
  condition : α
  value : α
  otherwise : Option α

/-- The parts that were given so far. -/
structure Branches (α : Type) where
  condition : Option α
  value : Option α
  otherwise : Option α

namespace Branches

variable {α : Type}

def empty : Branches α := ⟨none, none, none⟩

def get (b : Branches α) : Branch → Option α
  | .condition => b.condition
  | .value => b.value
  | .otherwise => b.otherwise

def set (b : Branches α) (x : α) : Branch → Branches α
  | .condition => { b with condition := some x }
  | .value => { b with value := some x }
  | .otherwise => { b with otherwise := some x }

@[simp] theorem get_set_self (b : Branches α) (x : α) (i : Branch) :
    (b.set x i).get i = some x := by
  cases i <;> rfl

theorem get_set_ne (b : Branches α) (x : α) {i j : Branch} (h : i ≠ j) :
    (b.set x i).get j = b.get j := by
  cases i <;> cases j <;> simp_all [get, set]

/-- Put the named arguments into their places. -/
def addNamed (function : String) (b : Branches α) : List (Arg α) → Except Error (Branches α)
  | [] => .ok b
  | ⟨none, _⟩ :: rest => addNamed function b rest
  | ⟨some name, x⟩ :: rest =>
    match Branch.ofName? name with
    | none => .error (.invalidArgument function (.unknownName name))
    | some i =>
      if (b.get i).isSome then .error (.invalidArgument function (.repeatedName name))
      else addNamed function (b.set x i) rest

/-- Put values into those of the places that are left. -/
def fill (b : Branches α) : List Branch → List α → Branches α
  | [], _ => b
  | _, [] => b
  | i :: is, x :: xs => if (b.get i).isSome then b.fill is (x :: xs) else (b.set x i).fill is xs

def unnamed (args : List (Arg α)) : List α :=
  args.filterMap fun arg => if arg.name.isNone then some arg.value else none

/-- The conditional, unless its condition or its value is missing. -/
def toChoice (function : String) (b : Branches α) : Except Error (Choice α) :=
  match b.condition, b.value with
  | some condition, some value => .ok { condition, value, otherwise := b.otherwise }
  | _, _ => .error (.invalidArgument function .missingBranch)

end Branches

/-- The conditional that these arguments of a call stand for. -/
def Choice.ofArgs {α : Type} (function : String) (args : List (Arg α)) :
    Except Error (Choice α) := do
  let named ← Branches.empty.addNamed function args
  (named.fill Branch.all (Branches.unnamed args)).toChoice function

end SqlChain
