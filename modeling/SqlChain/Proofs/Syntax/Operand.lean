import SqlChain.Compiler.Term
import SqlChain.Proofs.Building

/-!
# Texts of operands

As an operand of another, an expression that is an operation of its own is put into one pair of
parentheses. Every other expression has the same text as by itself.
-/

namespace SqlChain

/-- Whether parentheses are needed where the term is an operand. -/
def Term.isOperation : Term → Bool
  | .binary .. | .between .. | .inList .. | .inTerm .. | .concat _ => true
  | _ => false

theorem Term.text_true (t : Term) :
    t.text true = Term.parenthesisedIf t.isOperation (t.text false) := by
  cases t with
  | conditional condition value otherwise => cases otherwise <;> rfl
  | _ => rfl

/-- Whether there is anything to compare with, as far as can be seen. -/
def Candidates.hasAny : Candidates → Bool
  | .each items => !items.isEmpty
  | .value _ => true

namespace Compiler

variable (c : Compiler)

/-- Whether a list of candidates is empty. -/
def listsNothing : Expr → Bool
  | .call function args _ => function == "c" && args.isEmpty
  | _ => false

/-- Whether a call of this form is an operation. Membership of an empty list is not. -/
def isOperationForm (args : List (Arg Expr)) : SqlForm → Bool
  | .binary _ | .special .between | .special .logBase => true
  | .special .inSet => !(args[1]?).any fun arg => listsNothing arg.value
  | .special (.concat _) => c.dialect.concat == .operator
  | _ => false

def isOperation : Expr → Bool
  | .binary .. | .inExpr .. => true
  | .inList _ candidates => !candidates.isEmpty
  | .call function args _ =>
    match c.functions.lookup function args.length with
    | .unknown => (customOperator? function).isSome && args.length == 2
    | .wrongArity _ => false
    | .found entry => c.isOperationForm args entry.form
  | _ => false

variable {c}

theorem ensures_withWindow (qualifier : Option String) (frame : Frame) (body : Term)
    (order : CompileM (List Term)) (running : Bool) :
    (c.withWindow qualifier frame body order running).Ensures fun t => t.isOperation = false :=
  .bind_any fun _ => .bind_any fun _ => .pure rfl

theorem ensures_withWindowIfAllowed (qualifier : Option String) (frame : Option Frame) {body : Term}
    (hbody : body.isOperation = false) :
    (c.withWindowIfAllowed qualifier frame body).Ensures fun t => t.isOperation = false := by
  cases frame with
  | none => exact .pure hbody
  | some frame => exact ensures_withWindow qualifier frame body _ _

theorem ensures_conditional (condition value : Compiled) (otherwise : Option Compiled)
    (frame : Option Frame) :
    (conditional condition value otherwise frame).Ensures fun t => t.isOperation = false := by
  refine .bind_any fun _ => .bind_any fun _ => ?_
  cases otherwise with
  | none => exact .pure rfl
  | some otherwise => exact .bind_any fun _ => .pure rfl

theorem ensures_membership (operand : Compiled) (candidates : Candidates) (frame : Option Frame) :
    (c.membership operand candidates frame).Ensures fun t =>
      t.isOperation = candidates.hasAny := by
  refine .bind_any fun _ => ?_
  cases candidates with
  | each items =>
      cases items with
      | nil => exact .pure rfl
      | cons item items => exact .bind_any fun _ => .pure rfl
  | value items => exact .bind_any fun _ => .pure rfl

theorem hasAny_of (qualifier : Option String) (e : Expr) (m : Compiled) :
    (Operand.of e m (c.operandsWithin qualifier e)).candidates.hasAny = !listsNothing e := by
  cases e with
  | call function args window =>
      by_cases hc : function = "c"
      · subst hc
        cases args <;> rfl
      · simp [Operand.of, Candidates.hasAny, listsNothing, hc]
  | _ => rfl

theorem ensures_special (qualifier : Option String) (function : String) (args : List (Arg Expr))
    (frame : Option Frame) (form : SpecialForm) :
    (c.special qualifier function (c.operands qualifier args) frame form).Ensures fun t =>
      t.isOperation = c.isOperationForm args (.special form) := by
  cases form with
  | conditional => exact .bind_any fun choice => ensures_conditional _ _ _ frame
  | isNull | length | cast => exact .bind_any fun _ => .bind_any fun _ => .pure rfl
  | between =>
      exact .bind_any fun _ => .bind_any fun _ => .bind_any fun _ => .bind_any fun _ =>
        .bind_any fun _ => .bind_any fun _ => .pure rfl
  | inSet =>
      refine .bind_any fun operand => ?_
      rw [operands_eq_map, argument, List.getElem?_map]
      cases harg : args[1]? with
      | none => exact .bind (.throw (P := fun _ => False) _) fun _ => False.elim
      | some arg =>
          have hany := hasAny_of (c := c) qualifier arg.value (c.term qualifier arg.value)
          have hform : c.isOperationForm args (.special .inSet) = !listsNothing arg.value := by
            rw [isOperationForm, harg, Option.any_some]
          rw [hform, ← hany]
          exact ensures_membership _ _ frame
  | nDistinct => exact .bind_any fun _ => ensures_withWindowIfAllowed qualifier frame rfl
  | nullIf | pmin | pmax => exact .bind_any fun _ => .pure rfl
  | substr =>
      refine .bind_any fun _ => .bind_any fun _ => .bind_any fun _ => .bind_any fun _ =>
        .bind_any fun _ => .bind_any fun _ => .pure ?_
      rw [substring]
      cases c.dialect.substring <;> rfl
  | logBase =>
      exact .bind_any fun _ => .bind_any fun _ => .bind_any fun _ => .bind_any fun _ => .pure rfl
  | concat separator =>
      refine .bind_any fun _ => ?_
      rw [isOperationForm]
      dsimp only
      cases c.dialect.concat <;> exact .pure rfl
  | descending => exact .throw _

theorem ensures_writeAs (qualifier : Option String) (function : String) (args : List (Arg Expr))
    (frame : Option Frame) (form : SqlForm) :
    (c.writeAs qualifier function (c.operands qualifier args) frame form).Ensures fun t =>
      t.isOperation = c.isOperationForm args form := by
  cases form with
  | binary =>
      exact .bind_any fun _ => .bind_any fun _ => .bind_any fun _ => .bind_any fun _ => .pure rfl
  | unary op => cases op <;> exact .bind_any fun _ => .bind_any fun _ => .pure rfl
  | scalar => exact .bind_any fun _ => .pure rfl
  | aggregate => exact .bind_any fun _ => ensures_withWindowIfAllowed qualifier frame rfl
  | countStar => exact ensures_withWindowIfAllowed qualifier frame rfl
  | ranking =>
      refine .bind_any fun _ => ?_
      cases c.operands qualifier args <;> exact ensures_withWindow qualifier _ _ _ _
  | offset | cumulative =>
      exact .bind_any fun _ => .bind_any fun _ => ensures_withWindow qualifier _ _ _ _
  | ntile =>
      exact .bind_any fun _ => .bind_any fun _ => .bind_any fun _ => .bind_any fun _ =>
        ensures_withWindow qualifier _ _ _ _
  | special form => exact ensures_special qualifier function args frame form

theorem ensures_verbatim (function : String) (args : List (Arg Operand)) (frame : Option Frame) :
    (c.verbatim function args frame).Ensures fun t =>
      t.isOperation = ((customOperator? function).isSome && args.length == 2) := by
  unfold verbatim
  by_cases hstrict : c.config.strictSql = true
  · rw [if_pos hstrict]
    exact .bind (.throw (P := fun _ => False) _) fun _ => False.elim
  · rw [if_neg hstrict]
    refine .bind_any fun _ => ?_
    cases customOperator? function with
    | none => exact .bind_any fun _ => .pure rfl
    | some op =>
        match args with
        | [left, right] => exact .bind_any fun _ => .bind_any fun _ => .pure rfl
        | [] | [_] | _ :: _ :: _ :: _ => exact .bind_any fun _ => .pure (by simp [Term.isOperation])

theorem ensures_isOperation (qualifier : Option String) (e : Expr) (frame : Option Frame) :
    (c.term qualifier e frame).Ensures fun t => t.isOperation = c.isOperation e := by
  cases e with
  | column => exact .bind_any fun _ => .pure rfl
  | literal => exact .pure rfl
  | call function args window =>
      have hlength : (c.operands qualifier args).length = args.length := by
        rw [operands_eq_map, List.length_map]
      rw [term, call, isOperation, hlength]
      cases c.functions.lookup function args.length with
      | unknown =>
          dsimp only
          rw [← hlength]
          exact ensures_verbatim function _ frame
      | wrongArity known => exact .throw _
      | found entry =>
          have hwrite := ensures_writeAs (c := c) qualifier function args frame entry.form
          dsimp only
          split
          · exact .bind_any fun _ => hwrite
          · exact hwrite
  | conditional condition value otherwise =>
      cases otherwise <;> exact ensures_conditional _ _ _ frame
  | inList operand candidates =>
      have hany : (Candidates.each (c.terms qualifier candidates)).hasAny = !candidates.isEmpty := by
        rw [terms_eq_map, Candidates.hasAny, List.isEmpty_map]
      rw [isOperation, ← hany]
      exact ensures_membership _ _ frame
  | inExpr => exact ensures_membership _ (.value _) frame
  | binary => exact .bind_any fun _ => .bind_any fun _ => .pure rfl
  | unary op => cases op <;> exact .bind_any fun _ => .pure rfl

/-- As an operand, an expression has the text that it has by itself, in one pair of parentheses if it
is an operation, and it fails or warns as it does by itself. -/
theorem compileOperand_eq (context : Context) (e : Expr) :
    c.compileOperand context e =
      Term.parenthesisedIf (c.isOperation e) <$> c.compile context e := by
  rw [compileOperand, compile, map_bind]
  refine (ensures_isOperation context.qualifier e (c.frame context)).bind_congr fun t ht => ?_
  rw [map_pure, Term.text_true, ht]

end Compiler

end SqlChain
