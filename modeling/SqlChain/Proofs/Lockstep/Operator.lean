import SqlChain.Proofs.Lockstep.Expression

/-!
# Operators that are written as calls

A call by the name of an operator is that operator. Two tables know the names, the one of operators
and the one of functions, and it does not matter which of them is asked: an expression compiles to
the same text when all such calls in it become operators (`compile_withOperators`).
-/

namespace SqlChain

open CompileM

namespace Expr

/-- A call as the operator that it is by its name, unless its arguments do not fit. -/
def operatorCall (function : String) (args : List (Arg Expr)) (window : Bool) : Expr :=
  match args with
  | [⟨none, left⟩, ⟨none, right⟩] =>
    match BinaryOp.ofName? function with
    | some op => .binary op left right
    | none =>
      if function = "%in%" ∨ function = "in" then member left right
      else .call function args window
  | [⟨none, operand⟩] =>
    match UnaryOp.ofName? function with
    | some op => .unary op operand
    | none => .call function args window
  | _ => .call function args window

mutual

/-- The expression with operators in the place of the calls that stand for them, at any depth. -/
def withOperators : Expr → Expr
  | .column name => .column name
  | .literal value => .literal value
  | .call function args window => operatorCall function (withOperatorsOfArgs args) window
  | .conditional condition value none =>
    .conditional condition.withOperators value.withOperators none
  | .conditional condition value (some otherwise) =>
    .conditional condition.withOperators value.withOperators (some otherwise.withOperators)
  | .inList operand candidates =>
    .inList operand.withOperators (withOperatorsOfList candidates)
  | .inExpr operand candidates => .inExpr operand.withOperators candidates.withOperators
  | .binary op left right => .binary op left.withOperators right.withOperators
  | .unary op operand => .unary op operand.withOperators

def withOperatorsOfArgs : List (Arg Expr) → List (Arg Expr)
  | [] => []
  | ⟨name, e⟩ :: rest => ⟨name, e.withOperators⟩ :: withOperatorsOfArgs rest

def withOperatorsOfList : List Expr → List Expr
  | [] => []
  | e :: rest => e.withOperators :: withOperatorsOfList rest

end

/-- Calls below a call that lists candidates. -/
example : (plainCall "in" [.column "y", plainCall "c" [
      plainCall "-" [.literal (.int64 2), plainCall "-" [.column "x"]]]]).withOperators =
    .inList (.column "y") [.binary .sub (.literal (.int64 2)) (.unary .negate (.column "x"))] :=
  rfl

theorem withOperatorsOfArgs_eq_map (args : List (Arg Expr)) :
    withOperatorsOfArgs args = args.map fun arg => ⟨arg.name, arg.value.withOperators⟩ := by
  induction args with
  | nil => rfl
  | cons arg rest ih => rw [withOperatorsOfArgs, ih, List.map_cons]

theorem withOperatorsOfList_eq_map (es : List Expr) :
    withOperatorsOfList es = es.map withOperators := by
  induction es with
  | nil => rfl
  | cons e rest ih => rw [withOperatorsOfList, ih, List.map_cons]

end Expr

/-! ## Names -/

theorem FunctionTable.writes_of_binary {name : String} {op : BinaryOp}
    (h : BinaryOp.ofName? name = some op) : builtin.Writes name 2 (.binary op) := by
  unfold BinaryOp.ofName? at h
  split at h <;> cases h <;> exact ⟨by decide, by decide⟩

theorem FunctionTable.writes_of_unary {name : String} {op : UnaryOp}
    (h : UnaryOp.ofName? name = some op) : builtin.Writes name 1 (.unary op) := by
  unfold UnaryOp.ofName? at h
  split at h <;> cases h <;> exact ⟨by decide, by decide⟩

theorem FunctionTable.writes_of_member {name : String} (h : name = "%in%" ∨ name = "in") :
    builtin.Writes name 2 (.special .inSet) := by
  rcases h with rfl | rfl <;> exact ⟨by decide, by decide⟩

/-! ## Expressions -/

namespace Expr

variable {p : String → Nat → Prop} (hp : ∀ function arity, p function arity)

include hp

theorem respells_operatorCall (function : String) (window : Bool) {args others : List (Arg Expr)}
    (hnames : args.map Arg.name = others.map Arg.name)
    (hvalues : List.Forall₂ (Respells .builtin p) (args.map Arg.value) (others.map Arg.value)) :
    Respells .builtin p (.call function args window) (operatorCall function others window) := by
  have hcall : Respells .builtin p (.call function args window) (.call function others window) :=
    .call function window (hp _ _) hnames hvalues
  unfold operatorCall
  split
  · next other result =>
      obtain ⟨⟨name, left⟩, ⟨name', right⟩, rfl⟩ : ∃ x y, args = [x, y] := by
        rw [← List.length_eq_two]
        simpa using congrArg List.length hnames
      cases hnames
      obtain ⟨hleft, hright⟩ := List.forall₂_cons.1 hvalues
      have hright := (List.forall₂_cons.1 hright).1
      split
      · next hop => exact .binaryCall window (FunctionTable.writes_of_binary hop) hleft hright
      · split
        · next hmember =>
            exact .memberCall window (FunctionTable.writes_of_member hmember) hleft hright
        · exact hcall
  · next other =>
      obtain ⟨⟨name, operand⟩, rfl⟩ : ∃ x, args = [x] := by
        rw [← List.length_eq_one_iff]
        simpa using congrArg List.length hnames
      cases hnames
      split
      · next hop =>
          have hwrites := FunctionTable.writes_of_unary hop
          exact .unaryCall window hwrites (List.forall₂_cons.1 hvalues).1
      · exact hcall
  · exact hcall

theorem respells_withOperators (e : Expr) : e.Respells .builtin p e.withOperators := by
  induction e using Expr.induct with
  | step e ih =>
    cases e with
    | column name => exact .column name
    | literal value => exact .literal value
    | call function args window =>
        rw [withOperators, withOperatorsOfArgs_eq_map]
        refine respells_operatorCall hp function window ?_ ?_
        · rw [List.map_map]
          rfl
        · rw [List.map_map, List.forall₂_map_left_iff, List.forall₂_map_right_iff]
          exact List.forall₂_same.2 fun arg harg => ih arg.value (List.mem_map_of_mem harg)
    | conditional condition value otherwise =>
        have hcondition := ih condition (by simp [children])
        have hvalue := ih value (by simp [children])
        cases otherwise with
        | none => exact .conditional hcondition hvalue .none
        | some otherwise =>
            exact .conditional hcondition hvalue (.some (ih otherwise (by simp [children])))
    | inList operand candidates =>
        rw [withOperators, withOperatorsOfList_eq_map]
        refine .inList (ih operand (by simp [children])) ?_
        rw [List.forall₂_map_right_iff]
        exact List.forall₂_same.2 fun e he => ih e (List.mem_cons_of_mem _ he)
    | inExpr operand candidates =>
        exact .inExpr (ih operand (by simp [children])) (ih candidates (by simp [children]))
    | binary op left right =>
        exact .binary op (ih left (by simp [children])) (ih right (by simp [children]))
    | unary op operand => exact .unary op (ih operand (by simp [children]))

end Expr

/-- The same text after the same remarks, or errors that are alike. -/
def CompileM.Agree (m n : CompileM String) : Prop :=
  ∀ warnings,
    (∃ sql later, m.run.run warnings = (.ok sql, later) ∧ n.run.run warnings = (.ok sql, later)) ∨
    ∃ error other later, m.run.run warnings = (.error error, later) ∧
      n.run.run warnings = (.error other, later) ∧ error.Like other

theorem CompileM.InStep.agree {m n : CompileM String} (h : InStep (fun _ => False) Eq m n) :
    m.Agree n := by
  intro warnings
  have hends := h warnings
  rcases hm : m.run.run warnings with ⟨answer, later⟩
  rcases hn : n.run.run warnings with ⟨other, last⟩
  rw [hm, hn] at hends
  cases hends with
  | both hlike =>
      cases hlike with
      | error hlike => exact .inr ⟨_, _, _, rfl, rfl, hlike⟩
      | ok hsql => exact .inl ⟨_, _, rfl, hsql ▸ rfl⟩
  | stopped hstop => exact hstop.elim

/-- Calls by the names of operators are operators: in every context, by itself, as an operand and as
a key of an ordering, an expression compiles to the same text with the same remarks if all such
calls in it are written as operators, or fails in the same way. -/
theorem compile_withOperators (dialect : Dialect) (config : Config) (context : Context) (e : Expr) :
    ((Compiler.builtin dialect config).compile context e).Agree
      ((Compiler.builtin dialect config).compile context e.withOperators) ∧
    ((Compiler.builtin dialect config).compileOperand context e).Agree
      ((Compiler.builtin dialect config).compileOperand context e.withOperators) ∧
    ((Compiler.builtin dialect config).compileKey context e).Agree
      ((Compiler.builtin dialect config).compileKey context e.withOperators) := by
  have hlike := Compiler.WritesLike.refl (.builtin dialect config)
  have htolerates : ∀ function arity, Compiler.Tolerates (fun _ => False)
      (.builtin dialect config) (.builtin dialect config) function arity :=
    fun _ _ _ => .inl rfl
  have hspells := Expr.respells_withOperators htolerates e
  have hkeys : ∀ window ∈ context.window, ∀ key ∈ window.order, key.CallsAll
      (Compiler.Tolerates (fun _ => False) (.builtin dialect config) (.builtin dialect config)) :=
    fun _ _ _ _ function arity _ => htolerates function arity
  exact ⟨(inStep_compile hlike hkeys hspells).agree,
    (inStep_compileOperand hlike hkeys hspells).agree,
    (inStep_compileKey hlike hkeys hspells).agree⟩

end SqlChain
