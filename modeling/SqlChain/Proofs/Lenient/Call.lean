import SqlChain.Compiler.Call
import SqlChain.Proofs.Lenient.Leads

/-!
# Calls for a compiler that refuses little

A compiler is lenient if it can quote every name, has windows, and leaves functions that it does not
know as they are. A call that another compiler of the same functions accepts is accepted by a
lenient one too, over a window even where the other has none (`leads_call`).
-/

namespace SqlChain

open CompileM

structure Compiler.IsLenient (a : Compiler) : Prop where
  quotes : ∀ name, ∃ text, a.dialect.quoteIdentifier name = .ok text
  windows : a.dialect.features.windowFunctions = true
  lax : a.config.strictSql = false

/-- Windows may be allowed on the second side only. -/
def FrameLeads : Option Frame → Option Frame → Prop
  | none, _ => True
  | some f, some g => f.order.Leads g.order
  | some _, none => False

theorem FrameLeads.none_left (g : Option Frame) : FrameLeads none g := True.intro

/-- What stands for the same expression on both sides, where `Allowed` says under which windows it
is compiled. -/
def CompiledLeads (Allowed : Option Frame → Option Frame → Prop) (m n : Compiled) : Prop :=
  ∀ f g, Allowed f g → (m f).Leads (n g)

inductive CandidatesLead (Allowed : Option Frame → Option Frame → Prop) :
    Candidates → Candidates → Prop
  | each {items others : List Compiled} (h : List.Forall₂ (CompiledLeads Allowed) items others) :
      CandidatesLead Allowed (.each items) (.each others)
  | value {m n : Compiled} (h : CompiledLeads Allowed m n) :
      CandidatesLead Allowed (.value m) (.value n)

structure OperandLeads (Allowed : Option Frame → Option Frame → Prop) (o p : Operand) : Prop where
  value : CompiledLeads Allowed o.value p.value
  key : Allowed none none → o.key.Leads p.key
  candidates : CandidatesLead Allowed o.candidates p.candidates
  integer : ∀ function n, Compiler.integerLiteral function o.expr = .ok n →
    ∃ m, Compiler.integerLiteral function p.expr = .ok m

variable {c a : Compiler} {Allowed : Option Frame → Option Frame → Prop}

/-! ## Windows -/

theorem Compiler.IsLenient.exists_quoteQualified (h : a.IsLenient) (qualifier : Option String)
    (name : String) : ∃ text, a.dialect.quoteQualified qualifier name = .ok text := by
  cases qualifier with
  | none => exact h.quotes name
  | some qualifier =>
      exact exists_bind_eq_ok (h.quotes qualifier) fun _ =>
        exists_bind_eq_ok (h.quotes name) fun _ => ⟨_, rfl⟩

theorem Compiler.IsLenient.succeeds_column (h : a.IsLenient) (qualifier : Option String)
    (name : String) : (a.column qualifier name).Succeeds :=
  .attempt (h.exists_quoteQualified qualifier name)

theorem leads_withWindow (h : a.IsLenient) (q r : Option String) {f g : Frame} (body other : Term)
    {order orders : CompileM (List Term)} (horder : order.Leads orders) (running : Bool) :
    (c.withWindow q f body order running).Leads (a.withWindow r g other orders running) := by
  have hpartition : (g.partition.mapM (a.column r)).Succeeds :=
    .mapM fun name _ => h.succeeds_column r name
  refine LeadsTo.bind (hpartition.leads _) fun _ _ _ => ?_
  exact horder.bind fun _ _ _ => .pure True.intro

theorem leads_withWindowIfAllowed (h : a.IsLenient) (q r : Option String) {f g : Option Frame}
    (hframe : FrameLeads f g) (body other : Term) :
    (c.withWindowIfAllowed q f body).Leads (a.withWindowIfAllowed r g other) := by
  have hpure : (pure [] : CompileM (List Term)).Leads (pure [] : CompileM (List Term)) :=
    .pure True.intro
  cases f with
  | none =>
      cases g with
      | none => exact .pure True.intro
      | some g =>
          refine Succeeds.leads ?_ _
          refine Succeeds.bind (.mapM fun name _ => h.succeeds_column r name) fun _ => ?_
          exact Succeeds.bind (.pure _) fun _ => .pure _
  | some f =>
      cases g with
      | none => exact hframe.elim
      | some g => exact leads_withWindow h q r body other hpure false

/-! ## Arguments -/

theorem succeeds_warnIfNamed (function : String) (args : List (Arg Operand)) :
    (Compiler.warnIfNamed function args).Succeeds := by
  rw [Compiler.warnIfNamed]
  split
  · exact .pure _
  · exact fun warnings => ⟨⟨⟩, _, rfl⟩

section

variable {xs ys : List (Arg Operand)} (hargs : RelatedArgs (OperandLeads Allowed) xs ys)
  {f g : Option Frame} (hallowed : Allowed f g)

include hargs

theorem leads_argument (function : String) (i : Nat) :
    LeadsTo (OperandLeads Allowed) (Compiler.argument function xs i)
      (Compiler.argument function ys i) := by
  rw [Compiler.argument, Compiler.argument]
  generalize Error.missingArgument function i = e
  induction hargs generalizing i with
  | nil => exact .throw _ _
  | cons hxy _ ih =>
      cases i with
      | zero => exact .pure hxy.2
      | succ i => exact ih i

include hallowed

/-- A call that goes on with the term of one of its arguments. -/
theorem leads_argument_bind (function : String) (i : Nat) {rest others : Term → CompileM Term}
    (hrest : ∀ t u, (rest t).Leads (others u)) :
    Leads
      (do
        let operand ← Compiler.argument function xs i
        let t ← operand.value f
        rest t)
      (do
        let operand ← Compiler.argument function ys i
        let t ← operand.value g
        others t) :=
  (leads_argument hargs function i).bind fun _ _ ho =>
    (ho.value f g hallowed).bind fun t u _ => hrest t u

theorem leads_values : (Compiler.values xs f).Leads (Compiler.values ys g) :=
  (LeadsTo.mapM (hargs.imp fun _ _ h => h.2.value f g hallowed)).leads

end

/-! ## Calls -/

theorem compiledLeads_conditional {condition value other result : Compiled}
    {otherwise otherwise' : Option Compiled} (hcondition : CompiledLeads Allowed condition other)
    (hvalue : CompiledLeads Allowed value result)
    (hotherwise : Option.Rel (CompiledLeads Allowed) otherwise otherwise') :
    CompiledLeads Allowed (Compiler.conditional condition value otherwise)
      (Compiler.conditional other result otherwise') := by
  intro f g hallowed
  refine (hcondition f g hallowed).bind fun _ _ _ => ?_
  refine (hvalue f g hallowed).bind fun _ _ _ => ?_
  cases hotherwise with
  | none => exact .pure True.intro
  | some hotherwise => exact (hotherwise f g hallowed).bind fun _ _ _ => .pure True.intro

theorem compiledLeads_membership {m n : Compiled} (hoperand : CompiledLeads Allowed m n)
    {candidates others : Candidates} (hcandidates : CandidatesLead Allowed candidates others) :
    CompiledLeads Allowed (c.membership m candidates) (a.membership n others) := by
  intro f g hallowed
  refine (hoperand f g hallowed).bind fun _ _ _ => ?_
  cases hcandidates with
  | each hitems =>
      cases hitems with
      | nil => exact .pure True.intro
      | cons hitem hrest =>
          have hall := List.Forall₂.cons hitem hrest
          exact (LeadsTo.mapM (hall.imp fun _ _ h => h f g hallowed)).bind
            fun _ _ _ => .pure True.intro
  | value hitems => exact (hitems f g hallowed).bind fun _ _ _ => .pure True.intro

section

variable (h : a.IsLenient) {xs ys : List (Arg Operand)}
  (hargs : RelatedArgs (OperandLeads Allowed) xs ys) {f g : Option Frame} (hframe : FrameLeads f g)
  (hallowed : Allowed f g)

include h hargs hframe hallowed

theorem leads_special (q r : Option String) (function : String) (form : SpecialForm)
    (hnone : (SqlForm.special form).isAggregate = true → Allowed none none) :
    (c.special q function xs f form).Leads (a.special r function ys g form) := by
  have hvalues := leads_values hargs hallowed
  have argument := fun i => @leads_argument_bind _ _ _ hargs _ _ hallowed function i
  cases form with
  | conditional =>
      refine LeadsTo.bind (.attempt fun choice hchoice => (Choice.related_ofArgs hargs).exists_of_ok hchoice) ?_
      rintro choice other ⟨hcondition, hvalue, hotherwise⟩
      refine compiledLeads_conditional hcondition.value hvalue.value ?_ f g hallowed
      generalize choice.otherwise = x at hotherwise
      generalize other.otherwise = y at hotherwise
      cases hotherwise with
      | none => exact .none
      | some ho => exact .some ho.value
  | isNull => exact argument 0 fun _ _ => .pure True.intro
  | between =>
      exact argument 0 fun _ _ => argument 1 fun _ _ => argument 2 fun _ _ => .pure True.intro
  | inSet =>
      refine (leads_argument hargs function 0).bind fun _ _ ho => ?_
      refine (leads_argument hargs function 1).bind fun _ _ hitems => ?_
      exact compiledLeads_membership ho.value hitems.candidates f g hallowed
  | nDistinct =>
      refine (leads_values hargs (hnone rfl)).bind fun _ _ _ => ?_
      exact leads_withWindowIfAllowed h q r hframe _ _
  | nullIf => exact hvalues.bind fun _ _ _ => .pure True.intro
  | substr =>
      refine (leads_argument hargs function 0).bind fun _ _ ho => ?_
      refine (leads_argument hargs function 1).bind fun _ _ hstart => ?_
      refine LeadsTo.bind (R := fun _ _ => True) (.attempt fun n hn => ?_) fun _ _ _ => ?_
      · obtain ⟨m, hm⟩ := hstart.integer function n hn
        exact ⟨m, hm, True.intro⟩
      refine (leads_argument hargs function 2).bind fun _ _ hstop => ?_
      refine LeadsTo.bind (R := fun _ _ => True) (.attempt fun n hn => ?_) fun _ _ _ => ?_
      · obtain ⟨m, hm⟩ := hstop.integer function n hn
        exact ⟨m, hm, True.intro⟩
      exact (ho.value f g hallowed).bind fun _ _ _ => .pure True.intro
  | pmin => exact hvalues.bind fun _ _ _ => .pure True.intro
  | pmax => exact hvalues.bind fun _ _ _ => .pure True.intro
  | logBase => exact argument 0 fun _ _ => argument 1 fun _ _ => .pure True.intro
  | length => exact argument 0 fun _ _ => .pure True.intro
  | concat separator =>
      refine hvalues.bind fun _ _ _ => ?_
      refine Succeeds.leads ?_ _
      dsimp only
      split <;> exact .pure _
  | cast type => exact argument 0 fun _ _ => .pure True.intro
  | descending => exact .throw _ _

theorem leads_writeAs (q r : Option String) (function : String) (form : SqlForm)
    (hnone : form.isAggregate = true ∨ form.isWindowOnly = true → Allowed none none) :
    (c.writeAs q function xs f form).Leads (a.writeAs r function ys g form) := by
  have hvalues := leads_values hargs hallowed
  have argument := fun i => @leads_argument_bind _ _ _ hargs _ _ hallowed function i
  have hwindow : LeadsTo (fun x y => x.order.Leads y.order) (Compiler.requireWindow function f)
      (Compiler.requireWindow function g) := by
    cases f with
    | none => exact .throw _ _
    | some f =>
        cases g with
        | none => exact hframe.elim
        | some g => exact .pure hframe
  cases form with
  | binary op => exact argument 0 fun _ _ => argument 1 fun _ _ => .pure True.intro
  | unary op => cases op <;> exact argument 0 fun _ _ => .pure True.intro
  | scalar sql => exact hvalues.bind fun _ _ _ => .pure True.intro
  | aggregate sql =>
      refine (leads_values hargs (hnone (.inl rfl))).bind fun _ _ _ => ?_
      exact leads_withWindowIfAllowed h q r hframe _ _
  | countStar => exact leads_withWindowIfAllowed h q r hframe _ _
  | ranking sql =>
      refine hwindow.bind fun _ _ horder => ?_
      cases hargs with
      | nil => exact leads_withWindow h q r _ _ horder false
      | cons hxy _ =>
          refine leads_withWindow h q r _ _ ?_ false
          exact (hxy.2.key (hnone (.inr rfl))).bind fun _ _ _ => .pure True.intro
  | offset sql =>
      refine hwindow.bind fun _ _ horder => ?_
      refine (leads_values hargs (hnone (.inr rfl))).bind fun _ _ _ => ?_
      exact leads_withWindow h q r _ _ horder false
  | cumulative sql =>
      refine hwindow.bind fun _ _ horder => ?_
      refine (leads_values hargs (hnone (.inr rfl))).bind fun _ _ _ => ?_
      exact leads_withWindow h q r _ _ horder true
  | ntile =>
      refine hwindow.bind fun _ _ _ => ?_
      refine (leads_argument hargs function 0).bind fun _ _ hkey => ?_
      refine leads_argument_bind hargs (hnone (.inr rfl)) function 1 fun _ _ => ?_
      refine leads_withWindow h q r _ _ ?_ false
      exact (hkey.key (hnone (.inr rfl))).bind fun _ _ _ => .pure True.intro
  | special form =>
      exact leads_special h hargs hframe hallowed q r function form fun hform => hnone (.inl hform)

omit hframe in
theorem leads_verbatim (function : String) :
    (c.verbatim function xs f).Leads (a.verbatim function ys g) := by
  have hvalues := leads_values hargs hallowed
  unfold Compiler.verbatim
  rw [if_neg (show ¬a.config.strictSql = true by simp [h.lax])]
  dsimp only
  split
  · exact throw_bind_leadsTo _ _ _
  refine ((succeeds_warnIfNamed function ys).leads _).bind fun _ _ _ => ?_
  cases Compiler.customOperator? function with
  | none => exact hvalues.bind fun _ _ _ => .pure True.intro
  | some op =>
      cases hargs with
      | nil => exact hvalues.bind fun _ _ _ => .pure True.intro
      | cons hx hrest =>
          cases hrest with
          | nil => exact hvalues.bind fun _ _ _ => .pure True.intro
          | cons hy hrest =>
              cases hrest with
              | nil =>
                  refine (hx.2.value f g hallowed).bind fun _ _ _ => ?_
                  exact (hy.2.value f g hallowed).bind fun _ _ _ => .pure True.intro
              | cons => exact hvalues.bind fun _ _ _ => .pure True.intro

/-- A call is accepted by a lenient compiler of the same functions if its arguments are. Where
windows are allowed on one side only, calls that need one are left out. -/
theorem leads_call (q r : Option String) (function : String)
    (hfunctions : a.functions = c.functions)
    (hnone : ∀ form, c.functions.form? function xs.length = some form →
      form.isAggregate = true ∨ form.isWindowOnly = true → Allowed none none) :
    (c.call q function xs f).Leads (a.call r function ys g) := by
  rw [Compiler.call, Compiler.call, hfunctions, ← hargs.length_eq]
  split
  · exact leads_verbatim h hargs hallowed function
  · exact .throw _ _
  · next entry hentry =>
      have hform : c.functions.form? function xs.length = some entry.form := by
        rw [FunctionTable.form?, hentry]
      have hwrite := leads_writeAs (c := c) h hargs hframe hallowed q r function entry.form
        (hnone entry.form hform)
      split
      · exact ((succeeds_warnIfNamed function ys).leads _).bind fun _ _ _ => hwrite
      · exact hwrite

end

end SqlChain
