import SqlChain.Compiler.Call
import SqlChain.Proofs.Lockstep.Run

/-!
# Calls side by side

Compilers that write alike differ at most in whether functions that they do not know are refused. A
call of operands that are in step is in step for them, unless it is refused by the first one alone
(`inStep_call`).
-/

namespace SqlChain

open CompileM

/-- Compilers that write the same where both write something. -/
structure Compiler.WritesLike (c a : Compiler) : Prop where
  dialect : c.dialect = a.dialect
  numeric : c.config.strictNumeric = a.config.strictNumeric
  functions : c.functions = a.functions

/-- Where the function is not known, the compilers agree on whether it is refused, or else it is the
first one that refuses it, and is stopped by that. -/
def Compiler.Tolerates (Stop : Error → Prop) (c a : Compiler) (function : String) (arity : Nat) :
    Prop :=
  c.functions.named function = [] → c.config.strictSql = a.config.strictSql ∨
    c.config.strictSql = true ∧ Stop (.unknownFunction function arity)

theorem Compiler.WritesLike.refl (c : Compiler) : c.WritesLike c := ⟨rfl, rfl, rfl⟩

theorem FunctionTable.named_of_lookup_unknown {table : FunctionTable} {name : String} {arity : Nat}
    (h : table.lookup name arity = .unknown) : table.named name = [] := by
  unfold lookup at h
  split at h
  · assumption
  · split at h <;> cases h

section

variable (Stop : Error → Prop)

/-- Windows over the same partition whose orderings are in step. -/
def FramesInStep : Option Frame → Option Frame → Prop :=
  Option.Rel fun f g => f.partition = g.partition ∧ InStep Stop Eq f.order g.order

def CompiledInStep (m n : Compiled) : Prop :=
  ∀ f g, FramesInStep Stop f g → InStep Stop Eq (m f) (n g)

inductive CandidatesInStep : Candidates → Candidates → Prop
  | each {items others : List Compiled} (h : List.Forall₂ (CompiledInStep Stop) items others) :
      CandidatesInStep (.each items) (.each others)
  | value {m n : Compiled} (h : CompiledInStep Stop m n) : CandidatesInStep (.value m) (.value n)

structure OperandInStep (o p : Operand) : Prop where
  value : CompiledInStep Stop o.value p.value
  key : InStep Stop Eq o.key p.key
  candidates : CandidatesInStep Stop o.candidates p.candidates
  integer : ∀ function, LikeOutcome Eq (Compiler.integerLiteral function o.expr)
    (Compiler.integerLiteral function p.expr)

end

variable {Stop : Error → Prop} {c a : Compiler}

theorem FramesInStep.none : FramesInStep Stop none none := Option.Rel.none

/-! ## Windows -/

theorem Compiler.WritesLike.literal_eq (h : c.WritesLike a) (value : Scalar) :
    c.literal value = a.literal value := by
  rw [Compiler.literal, Compiler.literal, h.dialect, h.numeric]

theorem Compiler.WritesLike.column_eq (h : c.WritesLike a) (q : Option String) (name : String) :
    c.column q name = a.column q name := by
  rw [Compiler.column, Compiler.column, h.dialect]

theorem inStep_withWindow (h : c.WritesLike a) (q : Option String) {f g : Frame}
    (hpartition : f.partition = g.partition) (body : Term) {order orders : CompileM (List Term)}
    (horder : InStep Stop Eq order orders) (running : Bool) :
    InStep Stop Eq (c.withWindow q f body order running)
      (a.withWindow q g body orders running) := by
  rw [Compiler.withWindow, Compiler.withWindow, hpartition, funext (h.column_eq q)]
  exact (InStep.refl _).bind_eq fun _ => horder.bind_eq fun _ => .pure rfl

theorem inStep_withWindowIfAllowed (h : c.WritesLike a) (q : Option String) {f g : Option Frame}
    (hframe : FramesInStep Stop f g) (body : Term) :
    InStep Stop Eq (c.withWindowIfAllowed q f body) (a.withWindowIfAllowed q g body) := by
  cases hframe with
  | none => exact .pure rfl
  | some hframe => exact inStep_withWindow h q hframe.1 body (.pure rfl) false

theorem inStep_requireWindow (function : String) {f g : Option Frame}
    (hframe : FramesInStep Stop f g) :
    InStep Stop (fun f g => f.partition = g.partition ∧ InStep Stop Eq f.order g.order)
      (Compiler.requireWindow function f) (Compiler.requireWindow function g) := by
  cases hframe with
  | none => exact .throw _
  | some hframe => exact .pure hframe

/-! ## Arguments -/

section

variable {xs ys : List (Arg Operand)} (hargs : RelatedArgs (OperandInStep Stop) xs ys)

include hargs

theorem inStep_argument (function : String) (i : Nat) :
    InStep Stop (OperandInStep Stop) (Compiler.argument function xs i)
      (Compiler.argument function ys i) := by
  rw [Compiler.argument, Compiler.argument]
  generalize Error.missingArgument function i = e
  induction hargs generalizing i with
  | nil => exact .throw e
  | cons hxy _ ih =>
      cases i with
      | zero => exact .pure hxy.2
      | succ i => exact ih i

theorem warnIfNamed_eq (function : String) :
    Compiler.warnIfNamed function xs = Compiler.warnIfNamed function ys := by
  have hnames : xs.filterMap Arg.name = ys.filterMap Arg.name := by
    induction hargs with
    | nil => rfl
    | cons hxy _ ih => rw [List.filterMap_cons, List.filterMap_cons, hxy.1, ih]
  rw [Compiler.warnIfNamed, Compiler.warnIfNamed, hnames]

variable {f g : Option Frame} (hframe : FramesInStep Stop f g)

include hframe

/-- A call that goes on with the term of one of its arguments. -/
theorem inStep_argument_bind (function : String) (i : Nat) {rest others : Term → CompileM Term}
    (hrest : ∀ t, InStep Stop Eq (rest t) (others t)) :
    InStep Stop Eq
      (do
        let operand ← Compiler.argument function xs i
        let t ← operand.value f
        rest t)
      (do
        let operand ← Compiler.argument function ys i
        let t ← operand.value g
        others t) :=
  (inStep_argument hargs function i).bind fun _ _ ho => (ho.value f g hframe).bind_eq hrest

theorem inStep_values : InStep Stop Eq (Compiler.values xs f) (Compiler.values ys g) :=
  .mapM (hargs.imp fun _ _ h => h.2.value f g hframe)

end

/-! ## Calls -/

theorem compiledInStep_conditional {condition value other result : Compiled}
    {otherwise otherwise' : Option Compiled} (hcondition : CompiledInStep Stop condition other)
    (hvalue : CompiledInStep Stop value result)
    (hotherwise : Option.Rel (CompiledInStep Stop) otherwise otherwise') :
    CompiledInStep Stop (Compiler.conditional condition value otherwise)
      (Compiler.conditional other result otherwise') := by
  intro f g hframe
  refine (hcondition f g hframe).bind_eq fun _ => (hvalue f g hframe).bind_eq fun _ => ?_
  cases hotherwise with
  | none => exact .pure rfl
  | some hotherwise => exact (hotherwise f g hframe).bind_eq fun _ => .pure rfl

theorem compiledInStep_membership (h : c.WritesLike a) {m n : Compiled}
    (hoperand : CompiledInStep Stop m n) {candidates others : Candidates}
    (hcandidates : CandidatesInStep Stop candidates others) :
    CompiledInStep Stop (c.membership m candidates) (a.membership n others) := by
  intro f g hframe
  refine (hoperand f g hframe).bind_eq fun _ => ?_
  cases hcandidates with
  | each hitems =>
      cases hitems with
      | nil => exact .pure (h.literal_eq _)
      | cons hitem hrest =>
          have hall := List.Forall₂.cons hitem hrest
          exact (InStep.mapM (hall.imp fun _ _ h => h f g hframe)).bind_eq fun _ => .pure rfl
  | value hitems => exact (hitems f g hframe).bind_eq fun _ => .pure rfl

section

variable (h : c.WritesLike a) {xs ys : List (Arg Operand)}
  (hargs : RelatedArgs (OperandInStep Stop) xs ys) {f g : Option Frame}
  (hframe : FramesInStep Stop f g)

include h hargs hframe

theorem inStep_special (q : Option String) (function : String) (form : SpecialForm) :
    InStep Stop Eq (c.special q function xs f form) (a.special q function ys g form) := by
  have hvalues := inStep_values hargs hframe
  have argument := fun i => @inStep_argument_bind _ _ _ hargs _ _ hframe function i
  cases form with
  | conditional =>
      refine InStep.bind (.attempt (Choice.related_ofArgs hargs).like) ?_
      rintro choice other ⟨hcondition, hvalue, hotherwise⟩
      refine compiledInStep_conditional hcondition.value hvalue.value ?_ f g hframe
      generalize choice.otherwise = x at hotherwise
      generalize other.otherwise = y at hotherwise
      cases hotherwise with
      | none => exact .none
      | some ho => exact .some ho.value
  | isNull => exact argument 0 fun _ => .pure rfl
  | between =>
      exact argument 0 fun _ => argument 1 fun _ => argument 2 fun _ => .pure rfl
  | inSet =>
      refine (inStep_argument hargs function 0).bind fun _ _ ho => ?_
      refine (inStep_argument hargs function 1).bind fun _ _ hitems => ?_
      exact compiledInStep_membership h ho.value hitems.candidates f g hframe
  | nDistinct =>
      refine (inStep_values hargs .none).bind_eq fun _ => ?_
      exact inStep_withWindowIfAllowed h q hframe _
  | nullIf | pmin | pmax => exact hvalues.bind_eq fun _ => .pure rfl
  | substr =>
      refine (inStep_argument hargs function 0).bind fun _ _ ho => ?_
      refine (inStep_argument hargs function 1).bind fun _ _ hstart => ?_
      refine (InStep.attempt (hstart.integer function)).bind_eq fun _ => ?_
      refine (inStep_argument hargs function 2).bind fun _ _ hstop => ?_
      refine (InStep.attempt (hstop.integer function)).bind_eq fun _ => ?_
      refine (ho.value f g hframe).bind_eq fun _ => .pure ?_
      rw [Compiler.substring, Compiler.substring, h.dialect]
  | logBase => exact argument 0 fun _ => argument 1 fun _ => .pure rfl
  | length =>
      refine argument 0 fun _ => .pure ?_
      rw [h.dialect]
  | concat separator =>
      refine hvalues.bind_eq fun parts => ?_
      rw [h.dialect, funext h.literal_eq]
      exact .refl _
  | cast type => exact argument 0 fun _ => .pure rfl
  | descending => exact .throw _

theorem inStep_writeAs (q : Option String) (function : String) (form : SqlForm) :
    InStep Stop Eq (c.writeAs q function xs f form) (a.writeAs q function ys g form) := by
  have hvalues := inStep_values hargs hframe
  have hscalars := inStep_values hargs .none
  have hwindow := inStep_requireWindow function hframe
  have argument := fun i => @inStep_argument_bind _ _ _ hargs _ _ hframe function i
  cases form with
  | binary op => exact argument 0 fun _ => argument 1 fun _ => .pure rfl
  | unary op => cases op <;> exact argument 0 fun _ => .pure rfl
  | scalar sql => exact hvalues.bind_eq fun _ => .pure rfl
  | aggregate sql => exact hscalars.bind_eq fun _ => inStep_withWindowIfAllowed h q hframe _
  | countStar => exact inStep_withWindowIfAllowed h q hframe _
  | ranking sql =>
      refine hwindow.bind fun _ _ ⟨hpartition, horder⟩ => ?_
      cases hargs with
      | nil => exact inStep_withWindow h q hpartition _ horder false
      | cons hxy _ =>
          exact inStep_withWindow h q hpartition _ (hxy.2.key.bind_eq fun _ => .pure rfl) false
  | offset sql =>
      refine hwindow.bind fun _ _ ⟨hpartition, horder⟩ => hscalars.bind_eq fun _ => ?_
      exact inStep_withWindow h q hpartition _ horder false
  | cumulative sql =>
      refine hwindow.bind fun _ _ ⟨hpartition, horder⟩ => hscalars.bind_eq fun _ => ?_
      exact inStep_withWindow h q hpartition _ horder true
  | ntile =>
      refine hwindow.bind fun _ _ ⟨hpartition, _⟩ => ?_
      refine (inStep_argument hargs function 0).bind fun _ _ hkey => ?_
      refine inStep_argument_bind hargs .none function 1 fun _ => ?_
      exact inStep_withWindow h q hpartition _ (hkey.key.bind_eq fun _ => .pure rfl) false
  | special form => exact inStep_special h hargs hframe q function form

omit h in
/-- A call that is written as it is by two compilers that both do so. -/
theorem inStep_verbatim (function : String) (hstrict : c.config.strictSql = a.config.strictSql) :
    InStep Stop Eq (c.verbatim function xs f) (a.verbatim function ys g) := by
  have hvalues := inStep_values hargs hframe
  unfold Compiler.verbatim
  rw [hstrict, hargs.length_eq, warnIfNamed_eq hargs]
  dsimp only
  split
  · exact .throw _
  refine (InStep.refl _).bind_eq fun _ => ?_
  cases Compiler.customOperator? function with
  | none => exact hvalues.bind_eq fun _ => .pure rfl
  | some op =>
      -- an operator stands between exactly two arguments
      cases hargs with
      | nil => exact hvalues.bind_eq fun _ => .pure rfl
      | cons hx hrest =>
          cases hrest with
          | nil => exact hvalues.bind_eq fun _ => .pure rfl
          | cons hy hrest =>
              cases hrest with
              | nil =>
                  refine (hx.2.value f g hframe).bind_eq fun _ => ?_
                  exact (hy.2.value f g hframe).bind_eq fun _ => .pure rfl
              | cons => exact hvalues.bind_eq fun _ => .pure rfl

/-- A call of operands that are in step is in step, unless the first compiler is stopped by not
knowing the function. -/
theorem inStep_call (q : Option String) (function : String)
    (htolerates : c.Tolerates Stop a function xs.length) :
    InStep Stop Eq (c.call q function xs f) (a.call q function ys g) := by
  rw [Compiler.call, Compiler.call, ← h.functions, ← hargs.length_eq]
  split
  · next hunknown =>
      have hnamed := FunctionTable.named_of_lookup_unknown hunknown
      rcases htolerates hnamed with hstrict | ⟨hstrict, hstop⟩
      · exact inStep_verbatim hargs hframe function hstrict
      · unfold Compiler.verbatim
        rw [if_pos hstrict]
        exact .throw_of_stop hstop _
  · exact .throw _
  · next entry _ =>
      have hwrite := inStep_writeAs h hargs hframe q function entry.form
      rw [warnIfNamed_eq hargs]
      split
      · exact (InStep.refl _).bind_eq fun _ => hwrite
      · exact hwrite

end

end SqlChain
