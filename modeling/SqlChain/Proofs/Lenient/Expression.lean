import SqlChain.Compiler.Term
import SqlChain.Proofs.Lenient.Call

/-!
# Expressions for a compiler that refuses little

Whether an expression is accepted does not depend on the names of its columns, nor on the dialect
beyond what makes a compiler lenient. Calls that were taken out of an expression can be put back
where they are accepted over a window.
-/

namespace SqlChain

open CompileM

namespace Expr

/-- The second expression is the first one with some of its columns replaced, by other columns or by
calls that were taken out. Every call that both have in common satisfies `p`. -/
inductive Fills (taken : Expr → Prop) (p : String → Nat → Bool → Prop) : Expr → Expr → Prop
  | column (m n : String) : Fills taken p (.column m) (.column n)
  | taken (n : String) {e : Expr} (h : taken e) : Fills taken p (.column n) e
  | literal (v : Scalar) : Fills taken p (.literal v) (.literal v)
  | call (function : String) {args others : List (Arg Expr)} (window : Bool)
      (hkept : p function args.length window) (hnames : args.map Arg.name = others.map Arg.name)
      (hargs : List.Forall₂ (Fills taken p) (args.map Arg.value) (others.map Arg.value)) :
      Fills taken p (.call function args window) (.call function others window)
  | conditional {condition other value result : Expr} {otherwise otherwise' : Option Expr}
      (hcondition : Fills taken p condition other) (hvalue : Fills taken p value result)
      (hotherwise : Option.Rel (Fills taken p) otherwise otherwise') :
      Fills taken p (.conditional condition value otherwise) (.conditional other result otherwise')
  | inList {e other : Expr} {es others : List Expr} (he : Fills taken p e other)
      (hes : List.Forall₂ (Fills taken p) es others) :
      Fills taken p (.inList e es) (.inList other others)
  | inExpr {e other es others : Expr} (he : Fills taken p e other) (hes : Fills taken p es others) :
      Fills taken p (.inExpr e es) (.inExpr other others)
  | binary (op : BinaryOp) {left right other result : Expr} (hleft : Fills taken p left other)
      (hright : Fills taken p right result) :
      Fills taken p (.binary op left right) (.binary op other result)
  | unary (op : UnaryOp) {operand other : Expr} (h : Fills taken p operand other) :
      Fills taken p (.unary op operand) (.unary op other)

/-- The second expression is the first one but for the names of its columns. -/
abbrev Resembles : Expr → Expr → Prop := Fills (fun _ => False) fun _ _ _ => True

/-- The first expression is what is left of the second. -/
abbrev FillsRest (p : String → Nat → Bool → Bool) (taken : Expr → Prop) : Expr → Expr → Prop :=
  Fills taken fun function arity window => p function arity window = false

theorem resembles_refl (e : Expr) : e.Resembles e := by
  induction e using Expr.induct with
  | step e ih =>
    have hforall₂ : ∀ es : List Expr, (∀ e ∈ es, e.Resembles e) → List.Forall₂ Resembles es es :=
      fun es h => List.forall₂_same.2 h
    cases e with
    | column name => exact .column name name
    | literal value => exact .literal value
    | call function args window => exact .call function window True.intro rfl (hforall₂ _ ih)
    | conditional condition value otherwise =>
        refine .conditional (ih _ (by simp [children])) (ih _ (by simp [children])) ?_
        cases otherwise with
        | none => exact .none
        | some otherwise => exact .some (ih _ (by simp [children]))
    | inList e es =>
        have hes := hforall₂ es fun x hx => ih x (by simp [children, hx])
        exact .inList (ih _ (by simp [children])) hes
    | inExpr e es => exact .inExpr (ih _ (by simp [children])) (ih _ (by simp [children]))
    | binary op left right =>
        exact .binary op (ih _ (by simp [children])) (ih _ (by simp [children]))
    | unary op operand => exact .unary op (ih _ (by simp [children]))

end Expr

/-- What a compiler accepts for the first of two expressions, a lenient one accepts for the
second. -/
structure Admits (c a : Compiler) (r : Option String) (taken : Expr → Prop)
    (p : String → Nat → Bool → Prop) (Allowed : Option Frame → Option Frame → Prop) : Prop where
  lenient : a.IsLenient
  functions : a.functions = c.functions
  frames : ∀ f g, Allowed f g → FrameLeads f g
  /-- Calls are put back over a window only, and none of them lists candidates. -/
  taken : ∀ e, taken e → ¬Allowed none none ∧ (∀ f g, Allowed f g → (a.term r e g).Succeeds) ∧
    ∃ function args window, e = .call function args window ∧ function ≠ "c"
  /-- Where calls over a window are left, their arguments may be compiled without one. -/
  kept : ∀ function arity window form, p function arity window →
    c.functions.form? function arity = some form →
    form.isAggregate = true ∨ form.isWindowOnly = true → Allowed none none

/-- An expression as an argument of a call. -/
def Compiler.operand (c : Compiler) (q : Option String) (e : Expr) : Operand :=
  .of e (c.term q e) (c.operandsWithin q e)

variable {c a : Compiler} {q r : Option String} {taken : Expr → Prop}
  {p : String → Nat → Bool → Prop} {Allowed : Option Frame → Option Frame → Prop}

theorem relatedArgs_operands {args others : List (Arg Expr)}
    (hnames : args.map Arg.name = others.map Arg.name)
    (hvalues : List.Forall₂ (fun e s => OperandLeads Allowed (c.operand q e) (a.operand r s))
      (args.map Arg.value) (others.map Arg.value)) :
    RelatedArgs (OperandLeads Allowed) (c.operands q args) (a.operands r others) := by
  induction args generalizing others with
  | nil =>
      cases others with
      | nil => exact .nil
      | cons => cases hnames
  | cons x xs ih =>
      cases others with
      | nil => cases hnames
      | cons y ys =>
          rw [List.map_cons, List.map_cons, List.cons.injEq] at hnames
          rw [List.map_cons, List.map_cons, List.forall₂_cons] at hvalues
          exact .cons ⟨hnames.1, hvalues.1⟩ (ih hnames.2 hvalues.2)

/-! ## Operands -/

/-- Most operands are used by their value alone. -/
theorem OperandLeads.of_value {o s : Operand} (hvalue : CompiledLeads Allowed o.value s.value)
    (hkey : o.key = o.value none ∧ s.key = s.value none)
    (hcandidates : o.candidates = .value o.value ∧ s.candidates = .value s.value)
    (hexpr : ∀ v, o.expr ≠ .literal v) : OperandLeads Allowed o s where
  value := hvalue
  key := by
    intro hnone
    rw [hkey.1, hkey.2]
    exact hvalue none none hnone
  candidates := by
    rw [hcandidates.1, hcandidates.2]
    exact .value hvalue
  integer := by
    intro function n hn
    cases he : o.expr with
    | literal v => exact absurd he (hexpr v)
    | _ =>
        rw [he] at hn
        cases hn

theorem operandLeads_call {function : String} {args others : List (Arg Expr)} {window : Bool}
    (hargs : RelatedArgs (OperandLeads Allowed) (c.operands q args) (a.operands r others))
    (hterm : CompiledLeads Allowed (c.term q (.call function args window))
      (a.term r (.call function others window))) :
    OperandLeads Allowed (c.operand q (.call function args window))
      (a.operand r (.call function others window)) where
  value := hterm
  key := by
    intro hnone
    have hvalue := hterm none none hnone
    simp only [Compiler.operand, Compiler.operandsWithin, Operand.of]
    generalize c.operands q args = xs at hargs
    generalize a.operands r others = ys at hargs
    by_cases hdesc : function = "desc"
    · subst hdesc
      cases hargs with
      | nil => exact hvalue
      | cons hx hrest =>
          cases hrest with
          | nil => exact (hx.2.value none none hnone).bind fun _ _ _ => .pure True.intro
          | cons => exact hvalue
    · simpa [hdesc] using hvalue
  candidates := by
    simp only [Compiler.operand, Compiler.operandsWithin, Operand.of]
    by_cases hc : function = "c"
    · subst hc
      refine .each ?_
      rw [List.forall₂_map_left_iff, List.forall₂_map_right_iff]
      exact hargs.imp fun _ _ h => h.2.value
    · simpa [hc] using CandidatesLead.value hterm
  integer := by
    rintro _ n ⟨⟩

theorem operandLeads (h : Admits c a r taken p Allowed) {e other : Expr}
    (hfills : e.Fills taken p other) :
    OperandLeads Allowed (c.operand q e) (a.operand r other) := by
  induction e using Expr.induct generalizing other with
  | step e ih =>
    cases hfills with
    | column m n =>
        refine .of_value (fun f g _ => ?_) ⟨rfl, rfl⟩ ⟨rfl, rfl⟩ nofun
        exact ((h.lenient.succeeds_column r n).bind fun _ => .pure _).leads _
    | taken n htaken =>
        obtain ⟨hnone, hsucceeds, function, args, window, rfl, hc⟩ := h.taken _ htaken
        have hvalue : CompiledLeads Allowed (c.term q (.column n))
            (a.term r (.call function args window)) :=
          fun f g hallowed => (hsucceeds f g hallowed).leads _
        refine ⟨hvalue, fun hallowed => absurd hallowed hnone, ?_, nofun⟩
        simpa [Compiler.operand, Operand.of, hc] using CandidatesLead.value hvalue
    | literal v =>
        have hvalue : CompiledLeads Allowed (c.term q (.literal v)) (a.term r (.literal v)) :=
          fun f g _ => .pure True.intro
        exact ⟨hvalue, hvalue none none, .each (.cons hvalue .nil), fun _ n hn => ⟨n, hn⟩⟩
    | @call function args others window hkept hnames hargs =>
        have hvalues := (List.forall₂_and_left _ _).2
          ⟨fun e he other hfills => @ih e he other hfills, hargs⟩
        have hoperands := relatedArgs_operands hnames (hvalues.imp fun _ _ h => h.1 _ h.2)
        refine operandLeads_call hoperands fun f g hallowed => ?_
        refine leads_call h.lenient hoperands (h.frames f g hallowed) hallowed q r function
          h.functions ?_
        rw [Compiler.operands_eq_map, List.length_map]
        exact fun form => h.kept function args.length window form hkept
    | @conditional condition other value result otherwise otherwise' hcondition hvalue hotherwise =>
        have hcondition := (ih condition (by simp [Expr.children]) hcondition).value
        have hvalue := (ih value (by simp [Expr.children]) hvalue).value
        cases hotherwise with
        | none =>
            have hterm := compiledLeads_conditional hcondition hvalue .none
            exact .of_value hterm ⟨rfl, rfl⟩ ⟨rfl, rfl⟩ nofun
        | @some otherwise otherwise' hotherwise =>
            have hotherwise := (ih otherwise (by simp [Expr.children]) hotherwise).value
            have hterm := compiledLeads_conditional hcondition hvalue (.some hotherwise)
            exact .of_value hterm ⟨rfl, rfl⟩ ⟨rfl, rfl⟩ nofun
    | @inList e other es others he hes =>
        have he := (ih e (by simp [Expr.children]) he).value
        have hes : List.Forall₂ (CompiledLeads Allowed) (c.terms q es) (a.terms r others) := by
          rw [Compiler.terms_eq_map, Compiler.terms_eq_map, List.forall₂_map_left_iff,
            List.forall₂_map_right_iff]
          have hvalues := (List.forall₂_and_left _ _).2
            ⟨fun e he other hfills => @ih e (List.mem_cons_of_mem _ he) other hfills, hes⟩
          exact hvalues.imp fun _ _ h => (h.1 _ h.2).value
        refine .of_value ?_ ⟨rfl, rfl⟩ ⟨rfl, rfl⟩ nofun
        exact compiledLeads_membership he (.each hes)
    | @inExpr e other es others he hes =>
        have he := (ih e (by simp [Expr.children]) he).value
        have hes := (ih es (by simp [Expr.children]) hes).value
        refine .of_value ?_ ⟨rfl, rfl⟩ ⟨rfl, rfl⟩ nofun
        exact compiledLeads_membership (c := c) (a := a) he (.value hes)
    | @binary op left right other result hleft hright =>
        have hleft := (ih left (by simp [Expr.children]) hleft).value
        have hright := (ih right (by simp [Expr.children]) hright).value
        refine .of_value (fun f g hallowed => ?_) ⟨rfl, rfl⟩ ⟨rfl, rfl⟩ nofun
        refine (hleft f g hallowed).bind fun _ _ _ => ?_
        exact (hright f g hallowed).bind fun _ _ _ => .pure True.intro
    | @unary op operand other hoperand =>
        have hoperand := (ih operand (by simp [Expr.children]) hoperand).value
        refine .of_value (fun f g hallowed => ?_) ⟨rfl, rfl⟩ ⟨rfl, rfl⟩ nofun
        cases op <;> exact (hoperand f g hallowed).bind fun _ _ _ => .pure True.intro

end SqlChain
