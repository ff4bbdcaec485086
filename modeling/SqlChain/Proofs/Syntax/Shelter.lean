import SqlChain.Proofs.Syntax.Expression
import SqlChain.Proofs.Syntax.Operand
import SqlChain.Proofs.Syntax.Term

/-!
# Sheltered negations

A `NOT` takes along what stands behind its argument and binds more tightly. It is sheltered where
nothing of the kind does: as the last operand of its operator, and beside `AND` and `OR`.
-/

namespace SqlChain

open Syntax

namespace Syntax

open Grammar

/-- A word that is read as the function of a call. -/
def IsCallable (w : String) : Prop := IsWord w ∧ IsFunction w

instance (w : String) : Decidable (IsCallable w) := inferInstanceAs (Decidable (_ ∧ _))

end Syntax

namespace Node

def exprs (args : List (Arg Node)) : List Expr := args.map fun arg => arg.value.expr

theorem getElem?_exprs {args : List (Arg Node)} {i : Nat} {n : Node}
    (h : argument? args i = some n) : (exprs args)[i]? = some n.expr := by
  obtain ⟨arg, harg, rfl⟩ := Option.map_eq_some_iff.1 h
  rw [exprs, List.getElem?_map, harg]
  rfl

theorem mem_take_exprs {args : List (Arg Node)} {n : Node} (h : argument? args 0 = some n) :
    n.expr ∈ (exprs args).take 1 := by
  refine List.mem_of_getElem? (i := 0) ?_
  rw [List.getElem?_take_of_succ, getElem?_exprs h]

end Node

namespace Compiler

variable (c : Compiler)

/-- How a call of this form ends as an operand. -/
def formTail (args : List Expr) : SqlForm → Tail
  | .unary .not => .not
  | .unary .negate => if args.head?.any c.isNot then .minusNot else .closed
  | _ => .closed

def callTail (function : String) (args : List Expr) : Tail :=
  match c.functions.form? function args.length with
  | some form => c.formTail args form
  | none => .closed

/-- How an expression ends as an operand. -/
def tail : Expr → Tail
  | .unary op operand => c.formTail [operand] (.unary op)
  | .call function args _ => c.callTail function (args.map Arg.value)
  | _ => .closed

/-- The arguments of a call behind which an operator stands that binds more tightly than `NOT`. -/
def leadingArguments (args : List Expr) : SqlForm → List Expr
  | .binary op => if guards op.sql then [] else args.take 1
  | .special .between => args.take 1
  | .special .inSet => if args[1]?.any listsNothing then [] else args.take 1
  | .special (.concat _) => match c.dialect.concat with
    | .function => []
    | .operator => args.dropLast
  | _ => []

/-- The operands behind which an operator stands that binds more tightly than `NOT`. -/
def leadingOperands : Expr → List Expr
  | .binary op left _ => if guards op.sql then [] else [left]
  | .inList operand candidates => if candidates.isEmpty then [] else [operand]
  | .inExpr operand _ => [operand]
  | .call function args _ =>
    match c.functions.form? function args.length with
    | some form => c.leadingArguments (args.map Arg.value) form
    | none => []
  | _ => []

def hasLeadingNot (e : Expr) : Bool := (c.leadingOperands e).any fun operand => (c.tail operand).isOpen

/-- A call of a function that the table does not know and whose name is read as something else. -/
def isMisspelt : Expr → Bool
  | .call function args _ =>
    c.functions.lookup function args.length == .unknown &&
      (!decide (IsCallable function) || (customOperator? function).isSome)
  | _ => false

variable {c}

theorem negate_tail (e : Expr) :
    (c.tail e).negate = if c.isNot e then .minusNot else .closed := by
  cases e with
  | unary op operand =>
      cases op with
      | not => rfl
      | negate =>
          change (if c.isNot operand then Tail.minusNot else .closed).negate = .closed
          split <;> rfl
  | call function args window =>
      rw [tail, callTail, isNot, List.length_map]
      cases c.functions.form? function args.length with
      | none => rfl
      | some form =>
          cases form with
          | unary op =>
              cases op with
              | not => rfl
              | negate =>
                  dsimp only [formTail]
                  split <;> rfl
          | _ => rfl
  | _ => rfl

/-- What ends in a `NOT` is one or has one behind its minus sign. -/
theorem isNot_of_tail_isOpen {e : Expr} (h : (c.tail e).isOpen = true) :
    c.isNot e = true ∨ c.hasBareNot e = true := by
  cases e with
  | unary op operand =>
      cases op with
      | not => exact .inl rfl
      | negate =>
          refine .inr ?_
          by_contra hnone
          have hoperand : c.isNot operand = false := by simpa [hasBareNot, bareOperands] using hnone
          simp [tail, formTail, hoperand] at h
  | call function args window =>
      rw [tail, callTail, List.length_map] at h
      rw [isNot, hasBareNot, bareOperands]
      cases hform : c.functions.form? function args.length with
      | none => simp [hform] at h
      | some form =>
          rw [hform] at h
          dsimp only at h ⊢
          unfold formTail at h
          split at h
          · exact .inl rfl
          · split at h
            · next hnot =>
                obtain ⟨operand, hoperand, hnot⟩ := (Option.any_eq_true _ _).1 hnot
                refine .inr (List.any_eq_true.2 ⟨operand, ?_, hnot⟩)
                exact List.mem_of_mem_head? hoperand
            · cases h
          · cases h
  | _ => cases h

theorem mem_bareArguments {args : List Expr} {form : SqlForm} {e : Expr}
    (he : e ∈ c.leadingArguments args form) : e ∈ c.bareArguments args form := by
  unfold leadingArguments at he
  split at he
  · rw [bareArguments]
    split at he
    · cases he
    · next hguards => exact if_neg hguards ▸ List.mem_of_mem_take he
  · exact List.mem_of_mem_take he
  · split at he
    · cases he
    · exact he
  · split at he
    · cases he
    · next hoperator =>
        simp only [bareArguments, hoperator]
        exact List.dropLast_subset args he
  · cases he

theorem mem_bareOperands {e operand : Expr} (h : operand ∈ c.leadingOperands e) :
    operand ∈ c.bareOperands e := by
  unfold leadingOperands at h
  split at h
  · rw [bareOperands]
    split at h
    · cases h
    · next hguards =>
        rw [if_neg hguards]
        exact List.mem_cons.2 (.inl (List.mem_singleton.1 h))
  · split at h
    · cases h
    · exact h
  · exact h
  · next function args window =>
      rw [bareOperands]
      cases hform : c.functions.form? function args.length with
      | none => simp [hform] at h
      | some form =>
          rw [hform] at h
          exact mem_bareArguments h
  · cases h

theorem mem_children {e operand : Expr} (h : operand ∈ c.bareOperands e) :
    operand ∈ e.children := by
  unfold bareOperands at h
  split at h
  · split at h
    · cases h
    · exact h
  · exact h
  · exact List.mem_cons.2 (.inl (List.mem_singleton.1 h))
  · exact List.mem_cons.2 (.inl (List.mem_singleton.1 h))
  · next function args window =>
      split at h
      · next form _ =>
          unfold bareArguments at h
          split at h
          · split at h
            · cases h
            · exact h
          · exact h
          · exact h
          · exact List.mem_of_mem_take h
          · split at h
            · cases h
            · exact h
          · cases h
      · cases h
  · cases h

end Compiler

namespace Syntax

variable {c : Compiler} {e : Expr}

/-- Names of functions are read as such, and no operator takes anything away from a `NOT`. -/
structure IsSheltered (c : Compiler) (e : Expr) : Prop where
  spelled : e.any c.isMisspelt = false
  led : e.any c.hasLeadingNot = false

theorem IsSheltered.child {child : Expr} (h : IsSheltered c e) (hchild : child ∈ e.children) :
    IsSheltered c child :=
  ⟨(Expr.any_eq_false h.spelled).2 child hchild, (Expr.any_eq_false h.led).2 child hchild⟩

theorem IsSheltered.isOpen_eq_false {operand : Expr} (h : IsSheltered c e)
    (hoperand : operand ∈ c.leadingOperands e) : (c.tail operand).isOpen = false := by
  have hnone := (Expr.any_eq_false h.led).1
  rw [Compiler.hasLeadingNot, List.any_eq_false] at hnone
  simpa using hnone operand hoperand

end Syntax

end SqlChain
