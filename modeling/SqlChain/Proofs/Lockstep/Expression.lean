import SqlChain.Compiler.Term
import SqlChain.Proofs.Lenient.Expression
import SqlChain.Proofs.Lockstep.Call
import SqlChain.Proofs.Lockstep.Occurrence

/-!
# Expressions side by side

An expression may be spelled with operators where another one has calls of the same meaning. What
both compile to is in step, for compilers that write alike (`operandInStep`).
-/

namespace SqlChain

open CompileM

/-- Two arguments without a name, or one. -/
abbrev Arg.pair {α : Type} (left right : α) : List (Arg α) := [⟨none, left⟩, ⟨none, right⟩]

abbrev Arg.single {α : Type} (value : α) : List (Arg α) := [⟨none, value⟩]

/-- A function that is written in this form, and that means nothing to the calls around it. -/
structure FunctionTable.Writes (table : FunctionTable) (name : String) (arity : Nat)
    (form : SqlForm) : Prop where
  form? : table.form? name arity = some form
  /-- A call of `c` lists candidates, and one of `desc` marks a key. -/
  plain : name ≠ "c" ∧ name ≠ "desc"

namespace Expr

/-- Membership in what the second operand lists. -/
def member (operand : Expr) : Expr → Expr
  | .call "c" args _ => .inList operand (args.map Arg.value)
  | .literal value => .inList operand [.literal value]
  | other => .inExpr operand other

/-- The second expression is the first one with some of its calls spelled as operators. Every call
that both have in common satisfies `p`. -/
inductive Respells (table : FunctionTable) (p : String → Nat → Prop) : Expr → Expr → Prop
  | column (name : String) : Respells table p (.column name) (.column name)
  | literal (v : Scalar) : Respells table p (.literal v) (.literal v)
  | call (function : String) {args others : List (Arg Expr)} (window : Bool)
      (hkept : p function args.length) (hnames : args.map Arg.name = others.map Arg.name)
      (hargs : List.Forall₂ (Respells table p) (args.map Arg.value) (others.map Arg.value)) :
      Respells table p (.call function args window) (.call function others window)
  | conditional {condition other value result : Expr} {otherwise otherwise' : Option Expr}
      (hcondition : Respells table p condition other) (hvalue : Respells table p value result)
      (hotherwise : Option.Rel (Respells table p) otherwise otherwise') :
      Respells table p (.conditional condition value otherwise)
        (.conditional other result otherwise')
  | inList {e other : Expr} {es others : List Expr} (he : Respells table p e other)
      (hes : List.Forall₂ (Respells table p) es others) :
      Respells table p (.inList e es) (.inList other others)
  | inExpr {e other es others : Expr} (he : Respells table p e other)
      (hes : Respells table p es others) : Respells table p (.inExpr e es) (.inExpr other others)
  | binary (op : BinaryOp) {left right other result : Expr} (hleft : Respells table p left other)
      (hright : Respells table p right result) :
      Respells table p (.binary op left right) (.binary op other result)
  | unary (op : UnaryOp) {operand other : Expr} (h : Respells table p operand other) :
      Respells table p (.unary op operand) (.unary op other)
  | binaryCall {function : String} {op : BinaryOp} (window : Bool)
      (hwrites : table.Writes function 2 (.binary op)) {left right other result : Expr}
      (hleft : Respells table p left other) (hright : Respells table p right result) :
      Respells table p (.call function (Arg.pair left right) window) (.binary op other result)
  | unaryCall {function : String} {op : UnaryOp} (window : Bool)
      (hwrites : table.Writes function 1 (.unary op)) {operand other : Expr}
      (h : Respells table p operand other) :
      Respells table p (.call function (Arg.single operand) window) (.unary op other)
  | memberCall {function : String} (window : Bool)
      (hwrites : table.Writes function 2 (.special .inSet)) {left right other result : Expr}
      (hleft : Respells table p left other) (hright : Respells table p right result) :
      Respells table p (.call function (Arg.pair left right) window) (member other result)

variable {p : String → Nat → Prop} {e : Expr}

/-- An expression is a spelling of itself. -/
theorem respells_refl (table : FunctionTable) (h : e.CallsAll p) : e.Respells table p e := by
  induction e using Expr.induct with
  | step e ih =>
    have hforall₂ : List.Forall₂ (Respells table p) e.children e.children :=
      List.forall₂_same.2 fun child hchild => ih child hchild (callsAll_of_child h hchild)
    cases e with
    | column name => exact .column name
    | literal value => exact .literal value
    | call function args window => exact .call function window (callsAll_call h) rfl hforall₂
    | conditional condition value otherwise =>
        rw [children, List.cons_append, List.cons_append, List.nil_append] at hforall₂
        simp only [List.forall₂_cons] at hforall₂
        obtain ⟨hcondition, hvalue, hotherwise⟩ := hforall₂
        refine .conditional hcondition hvalue ?_
        cases otherwise with
        | none => exact .none
        | some otherwise => exact .some (List.forall₂_cons.1 hotherwise).1
    | inList e es =>
        obtain ⟨he, hes⟩ := List.forall₂_cons.1 hforall₂
        exact .inList he hes
    | inExpr e es =>
        obtain ⟨he, hes⟩ := List.forall₂_cons.1 hforall₂
        exact .inExpr he (List.forall₂_cons.1 hes).1
    | binary op left right =>
        obtain ⟨hleft, hright⟩ := List.forall₂_cons.1 hforall₂
        exact .binary op hleft (List.forall₂_cons.1 hright).1
    | unary op operand => exact .unary op (List.forall₂_cons.1 hforall₂).1

end Expr

variable {Stop : Error → Prop} {c a : Compiler} {q : Option String}

/-! ## Operands -/

/-- The expression is refused where a whole number has to stand. -/
def Expr.IsNoInteger (e : Expr) : Prop :=
  ∀ function, Compiler.integerLiteral function e =
    .error (.invalidArgument function (.notIntegerLiteral e))

/-- Most operands are used by their value alone. -/
theorem OperandInStep.of_value {o s : Operand} (hvalue : CompiledInStep Stop o.value s.value)
    (hkey : o.key = o.value none ∧ s.key = s.value none)
    (hcandidates : o.candidates = .value o.value ∧ s.candidates = .value s.value)
    (hinteger : o.expr.IsNoInteger ∧ s.expr.IsNoInteger) : OperandInStep Stop o s where
  value := hvalue
  key := by
    rw [hkey.1, hkey.2]
    exact hvalue none none .none
  candidates := by
    rw [hcandidates.1, hcandidates.2]
    exact .value hvalue
  integer := by
    intro function
    rw [hinteger.1 function, hinteger.2 function]
    exact .error (.notIntegerLiteral function o.expr s.expr)

theorem operandInStep_call {function : String} {args others : List (Arg Expr)} {window : Bool}
    (hargs : RelatedArgs (OperandInStep Stop) (c.operands q args) (a.operands q others))
    (hterm : CompiledInStep Stop (c.term q (.call function args window))
      (a.term q (.call function others window))) :
    OperandInStep Stop (c.operand q (.call function args window))
      (a.operand q (.call function others window)) where
  value := hterm
  key := by
    have hvalue := hterm none none .none
    simp only [Compiler.operand, Compiler.operandsWithin, Operand.of]
    generalize c.operands q args = xs at hargs
    generalize a.operands q others = ys at hargs
    by_cases hdesc : function = "desc"
    · subst hdesc
      cases hargs with
      | nil => exact hvalue
      | cons hx hrest =>
          cases hrest with
          | nil => exact (hx.2.value none none .none).bind_eq fun _ => .pure rfl
          | cons => exact hvalue
    · simpa [hdesc] using hvalue
  candidates := by
    simp only [Compiler.operand, Compiler.operandsWithin, Operand.of]
    by_cases hc : function = "c"
    · subst hc
      refine .each ?_
      rw [List.forall₂_map_left_iff, List.forall₂_map_right_iff]
      exact hargs.imp fun _ _ h => h.2.value
    · simpa [hc] using CandidatesInStep.value hterm
  integer := fun function => .error (.notIntegerLiteral function _ _)

/-- Operands of calls that are spelled alike, from those of their arguments. -/
theorem relatedArgs_operandsInStep {args others : List (Arg Expr)}
    (hnames : args.map Arg.name = others.map Arg.name)
    (hvalues : List.Forall₂ (fun e s => OperandInStep Stop (c.operand q e) (a.operand q s))
      (args.map Arg.value) (others.map Arg.value)) :
    RelatedArgs (OperandInStep Stop) (c.operands q args) (a.operands q others) := by
  induction args generalizing others with
  | nil =>
      cases others with
      | nil => exact .nil
      | cons => cases hnames
  | cons x xs ih =>
      cases others with
      | nil => cases hnames
      | cons y ys =>
          rw [List.map_cons, List.map_cons, List.cons.injEq] at hnames
          rw [List.map_cons, List.map_cons, List.forall₂_cons] at hvalues
          exact .cons ⟨hnames.1, hvalues.1⟩ (ih hnames.2 hvalues.2)

/-! ## Calls that are spelled as operators -/

theorem Compiler.call_eq_writeAs {function : String} {args : List (Arg Operand)} {form : SqlForm}
    (hform : c.functions.form? function args.length = some form)
    (hnames : args.filterMap Arg.name = []) (frame : Option Frame) :
    c.call q function args frame = c.writeAs q function args frame form := by
  rw [FunctionTable.form?] at hform
  split at hform
  · next entry hentry =>
      cases hform
      rw [Compiler.call, hentry]
      simp only [Compiler.warnIfNamed, hnames]
      split <;> rfl
  · cases hform

/-- What is neither a list nor a literal is searched as a whole. -/
theorem Compiler.candidates_operand {e : Expr} (hcall : ∀ args window, e ≠ .call "c" args window)
    (hliteral : ∀ v, e ≠ .literal v) : (c.operand q e).candidates = .value (c.term q e) := by
  cases e with
  | literal v => exact absurd rfl (hliteral v)
  | call function args window =>
      simp [Compiler.operand, Operand.of]
  | _ => rfl

theorem Compiler.term_member (c : Compiler) (q : Option String) (operand items : Expr)
    (frame : Option Frame) :
    c.term q (Expr.member operand items) frame =
      c.membership (c.term q operand) (c.operand q items).candidates frame := by
  unfold Expr.member
  split
  · rw [Compiler.term, Compiler.terms_eq_map, Compiler.operand, Operand.of,
      Compiler.operandsWithin, Compiler.operands_eq_map, List.map_map, List.map_map]
    rfl
  · rfl
  · next hcall hliteral =>
      rw [Compiler.term, Compiler.candidates_operand hcall hliteral]

/-- A call of an operator is used by its value alone. -/
theorem operandInStep_operator {function : String} {form : SqlForm} {args : List (Arg Expr)}
    {window : Bool} {other : Expr} (hwrites : c.functions.Writes function args.length form)
    (hother : (a.operand q other).key = a.term q other none ∧
      (a.operand q other).candidates = .value (a.term q other) ∧ other.IsNoInteger)
    (hnames : args.filterMap Arg.name = [])
    (hvalue : CompiledInStep Stop (fun frame => c.writeAs q function (c.operands q args) frame form)
      (a.term q other)) :
    OperandInStep Stop (c.operand q (.call function args window)) (a.operand q other) := by
  obtain ⟨hform, hc, hdesc⟩ := hwrites
  have hnames : (c.operands q args).filterMap Arg.name = [] := by
    rw [Compiler.operands_eq_map, List.filterMap_map]
    exact hnames
  have hlength : (c.operands q args).length = args.length := by
    rw [Compiler.operands_eq_map, List.length_map]
  refine .of_value ?_ ⟨?_, hother.1⟩ ⟨?_, hother.2.1⟩ ⟨fun _ => rfl, hother.2.2⟩
  · intro f g hframe
    have hterm := Compiler.call_eq_writeAs (q := q) (hlength ▸ hform) hnames f
    simp only [Compiler.operand, Operand.of, Compiler.term]
    rw [hterm]
    exact hvalue f g hframe
  · simp [Compiler.operand, Operand.of, hdesc]
  · simp [Compiler.operand, Operand.of, hc]

/-! ## Expressions -/

theorem operandInStep (h : c.WritesLike a) {e other : Expr}
    (hspells : e.Respells c.functions (c.Tolerates Stop a) other) :
    OperandInStep Stop (c.operand q e) (a.operand q other) := by
  induction e using Expr.induct generalizing other with
  | step e ih =>
    cases hspells with
    | column name =>
        refine .of_value (fun f g _ => ?_) ⟨rfl, rfl⟩ ⟨rfl, rfl⟩ ⟨fun _ => rfl, fun _ => rfl⟩
        simp only [Compiler.operand, Operand.of, Compiler.term, h.column_eq]
        exact .refl _
    | literal v =>
        have hvalue : CompiledInStep Stop (c.term q (.literal v)) (a.term q (.literal v)) :=
          fun f g _ => .pure (h.literal_eq v)
        refine ⟨hvalue, hvalue none none .none, .each (.cons hvalue .nil), fun function => ?_⟩
        cases hr : Compiler.integerLiteral function (.literal v) with
        | error e => exact hr ▸ .error (.refl e)
        | ok n => exact hr ▸ .ok rfl
    | @call function args others window hkept hnames hargs =>
        have hvalues := (List.forall₂_and_left _ _).2
          ⟨fun e he other hspells => @ih e he other hspells, hargs⟩
        have hoperands := relatedArgs_operandsInStep hnames (hvalues.imp fun _ _ h => h.1 _ h.2)
        refine operandInStep_call hoperands fun f g hframe => ?_
        refine inStep_call h hoperands hframe q function ?_
        rw [Compiler.operands_eq_map, List.length_map]
        exact hkept
    | @conditional condition other value result otherwise otherwise' hcondition hvalue hotherwise =>
        have hcondition := (ih condition (by simp [Expr.children]) hcondition).value
        have hvalue := (ih value (by simp [Expr.children]) hvalue).value
        cases hotherwise with
        | none =>
            have hterm := compiledInStep_conditional hcondition hvalue .none
            exact .of_value hterm ⟨rfl, rfl⟩ ⟨rfl, rfl⟩ ⟨fun _ => rfl, fun _ => rfl⟩
        | @some otherwise otherwise' hotherwise =>
            have hotherwise := (ih otherwise (by simp [Expr.children]) hotherwise).value
            have hterm := compiledInStep_conditional hcondition hvalue (.some hotherwise)
            exact .of_value hterm ⟨rfl, rfl⟩ ⟨rfl, rfl⟩ ⟨fun _ => rfl, fun _ => rfl⟩
    | @inList e other es others he hes =>
        have he := (ih e (by simp [Expr.children]) he).value
        have hes : List.Forall₂ (CompiledInStep Stop) (c.terms q es) (a.terms q others) := by
          rw [Compiler.terms_eq_map, Compiler.terms_eq_map, List.forall₂_map_left_iff,
            List.forall₂_map_right_iff]
          have hvalues := (List.forall₂_and_left _ _).2
            ⟨fun e he other hspells => @ih e (List.mem_cons_of_mem _ he) other hspells, hes⟩
          exact hvalues.imp fun _ _ h => (h.1 _ h.2).value
        refine .of_value ?_ ⟨rfl, rfl⟩ ⟨rfl, rfl⟩ ⟨fun _ => rfl, fun _ => rfl⟩
        exact compiledInStep_membership h he (.each hes)
    | @inExpr e other es others he hes =>
        have he := (ih e (by simp [Expr.children]) he).value
        have hes := (ih es (by simp [Expr.children]) hes).value
        refine .of_value ?_ ⟨rfl, rfl⟩ ⟨rfl, rfl⟩ ⟨fun _ => rfl, fun _ => rfl⟩
        exact compiledInStep_membership h he (.value hes)
    | @binary op left right other result hleft hright =>
        have hleft := (ih left (by simp [Expr.children]) hleft).value
        have hright := (ih right (by simp [Expr.children]) hright).value
        refine .of_value (fun f g hframe => ?_) ⟨rfl, rfl⟩ ⟨rfl, rfl⟩ ⟨fun _ => rfl, fun _ => rfl⟩
        refine (hleft f g hframe).bind_eq fun _ => ?_
        exact (hright f g hframe).bind_eq fun _ => .pure rfl
    | @unary op operand other hoperand =>
        have hoperand := (ih operand (by simp [Expr.children]) hoperand).value
        refine .of_value (fun f g hframe => ?_) ⟨rfl, rfl⟩ ⟨rfl, rfl⟩ ⟨fun _ => rfl, fun _ => rfl⟩
        cases op <;> exact (hoperand f g hframe).bind_eq fun _ => .pure rfl
    | @binaryCall function op window hwrites left right other result hleft hright =>
        have hleft := (ih left (by simp [Expr.children]) hleft).value
        have hright := (ih right (by simp [Expr.children]) hright).value
        refine operandInStep_operator hwrites ⟨rfl, rfl, fun _ => rfl⟩ rfl fun f g hframe => ?_
        refine (hleft f g hframe).bind_eq fun _ => ?_
        exact (hright f g hframe).bind_eq fun _ => .pure rfl
    | @unaryCall function op window hwrites operand other hoperand =>
        have hoperand := (ih operand (by simp [Expr.children]) hoperand).value
        refine operandInStep_operator hwrites ⟨rfl, rfl, fun _ => rfl⟩ rfl fun f g hframe => ?_
        cases op <;> exact (hoperand f g hframe).bind_eq fun _ => .pure rfl
    | @memberCall function window hwrites left right other result hleft hright =>
        have hleft := (ih left (by simp [Expr.children]) hleft).value
        have hright := (ih right (by simp [Expr.children]) hright).candidates
        refine operandInStep_operator hwrites ?_ rfl fun f g hframe => ?_
        · unfold Expr.member
          split <;> exact ⟨rfl, rfl, fun _ => rfl⟩
        · rw [Compiler.term_member]
          exact compiledInStep_membership h hleft hright f g hframe

/-! ## Texts -/

theorem Expr.descending?_call_of_ne {function : String} (h : function ≠ "desc")
    (args : List (Arg Expr)) (window : Bool) :
    (Expr.call function args window).descending? = none := by
  simp [Expr.descending?, h]

theorem Expr.descending?_call_of_length {args : List (Arg Expr)} (h : args.length ≠ 1)
    (function : String) (window : Bool) : (Expr.call function args window).descending? = none := by
  unfold Expr.descending?
  split
  · next heq =>
      cases heq
      exact absurd rfl h
  · rfl

/-- Marking a key as descending is no operator. -/
theorem Expr.Respells.descending {table : FunctionTable} {p : String → Nat → Prop} {e other : Expr}
    (h : e.Respells table p other) :
    Option.Rel (Expr.Respells table p) e.descending? other.descending? := by
  cases h with
  | @call function args others window _ hnames hargs =>
      have hlength : args.length = others.length := by simpa using congrArg List.length hnames
      by_cases hone : args.length = 1
      · obtain ⟨x, rfl⟩ := List.length_eq_one_iff.1 hone
        obtain ⟨y, rfl⟩ := List.length_eq_one_iff.1 (hlength ▸ hone)
        by_cases hdesc : function = "desc"
        · subst hdesc
          exact .some (List.forall₂_cons.1 hargs).1
        · rw [descending?_call_of_ne hdesc, descending?_call_of_ne hdesc]
          exact .none
      · rw [descending?_call_of_length hone, descending?_call_of_length (hlength ▸ hone)]
        exact .none
  | memberCall =>
      rw [descending?_call_of_length (by simp)]
      unfold Expr.member
      split <;> exact .none
  | binaryCall =>
      rw [descending?_call_of_length (by simp)]
      exact .none
  | unaryCall window hwrites =>
      rw [descending?_call_of_ne hwrites.plain.2]
      exact .none
  | _ => exact .none

section

variable (h : c.WritesLike a)

include h

theorem inStep_keyTerm {e other : Expr}
    (hspells : e.Respells c.functions (c.Tolerates Stop a) other) {f g : Option Frame}
    (hframe : FramesInStep Stop f g) :
    InStep Stop Eq (c.keyTerm q e f) (a.keyTerm q other g) := by
  have hdescending := hspells.descending
  rw [Compiler.keyTerm, Compiler.keyTerm]
  generalize e.descending? = x at hdescending
  generalize other.descending? = y at hdescending
  cases hdescending with
  | none => exact (operandInStep h hspells).value f g hframe
  | some hoperand =>
      exact ((operandInStep h hoperand).value f g hframe).bind_eq fun _ => .pure rfl

variable {context : Context}
  (hkeys : ∀ window ∈ context.window, ∀ key ∈ window.order, key.CallsAll (c.Tolerates Stop a))

include hkeys

theorem framesInStep_frame : FramesInStep Stop (c.frame context) (a.frame context) := by
  rw [Compiler.frame, Compiler.frame]
  cases hwindow : context.window with
  | none => exact .none
  | some window =>
      refine .some ⟨rfl, .mapM (List.forall₂_same.2 fun key hkey => ?_)⟩
      exact inStep_keyTerm h (Expr.respells_refl c.functions (hkeys window hwindow key hkey)) .none

variable {e other : Expr} (hspells : e.Respells c.functions (c.Tolerates Stop a) other)

include hspells

theorem inStep_compile : InStep Stop Eq (c.compile context e) (a.compile context other) :=
  ((operandInStep h hspells).value _ _ (framesInStep_frame h hkeys)).bind_eq fun _ => .pure rfl

theorem inStep_compileOperand :
    InStep Stop Eq (c.compileOperand context e) (a.compileOperand context other) :=
  ((operandInStep h hspells).value _ _ (framesInStep_frame h hkeys)).bind_eq fun _ => .pure rfl

theorem inStep_compileKey :
    InStep Stop Eq (c.compileKey context e) (a.compileKey context other) :=
  (inStep_keyTerm h hspells (framesInStep_frame h hkeys)).bind_eq fun _ => .pure rfl

end

end SqlChain
