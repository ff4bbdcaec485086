import SqlChain.Proofs.Failure
import SqlChain.Proofs.Written

/-!
# What compiling inherits from its parts

Compiling puts computations together in a few ways. A property that is handed on by all of these
ways holds of whatever is compiled (`holds_term`), provided that it holds of failing with what can
go wrong. An argument can be missing only where a form reads more of them than the table lets
through.
-/

namespace SqlChain

variable {α β : Type} {E : Error → Prop}

def Error.isMissingArgument : Error → Bool
  | .missingArgument .. => true
  | _ => false

/-- How many arguments a call of this form asks for by their position. A rank asks for its argument
where there are no windows. -/
def SqlForm.reads : SqlForm → Nat
  | .ranking sql => if sql = "RANK" ∨ sql = "DENSE_RANK" then 1 else 0
  | .unary _ | .special .isNull | .special .length | .special (.cast _) => 1
  | .binary _ | .ntile | .special .inSet | .special .logBase => 2
  | .special .between | .special .substr => 3
  | _ => 0

namespace CompileM

/-- A property of computations that is handed on by all ways of putting them together. Of a failure
it holds if the error is one of `E`, to which all errors but missing arguments belong. -/
structure IsInherited (K : (α : Type) → CompileM α → Prop) (E : Error → Prop) : Prop where
  others : ∀ e : Error, e.isMissingArgument = false → E e
  pure : ∀ {α : Type} (a : α), K α (pure a)
  throw : ∀ {α : Type} {e : Error}, E e → K α (throw e)
  warn : ∀ w, K Unit (warn w)
  /-- What comes next may rely on what is known of the result so far. -/
  bind_of : ∀ {α β : Type} {m : CompileM α} {f : α → CompileM β} {P : α → Prop}, K α m →
    m.Ensures P → (∀ a, P a → K β (f a)) → K β (m >>= f)

namespace IsInherited

variable {K : (α : Type) → CompileM α → Prop} (h : IsInherited K E)

include h

theorem bind {m : CompileM α} {f : α → CompileM β} (hm : K α m) (hf : ∀ a, K β (f a)) :
    K β (m >>= f) :=
  h.bind_of (P := fun _ => True) hm (fun _ _ _ _ => True.intro) fun a _ => hf a

theorem attempt {r : Except Error α} (hr : FailsWith E r) : K α (attempt r) := by
  cases r with
  | ok a => exact h.pure a
  | error e => exact h.throw (hr e rfl)

theorem mapM {f : α → CompileM β} {as : List α} (hf : ∀ a ∈ as, K β (f a)) :
    K (List β) (as.mapM f) := by
  induction as with
  | nil => exact h.pure []
  | cons a as ih =>
      rw [List.mapM_cons]
      refine h.bind (hf a List.mem_cons_self) fun _ => ?_
      exact h.bind (ih fun x hx => hf x (List.mem_cons_of_mem _ hx)) fun _ => h.pure _

end IsInherited

end CompileM

/-! ## What can go wrong in a part -/

namespace Dialect

section

variable (hE : ∀ name quote dialect, E (.invalidIdentifier name quote dialect)) (d : Dialect)

include hE

theorem failsWith_quoteIdentifier (name : String) : FailsWith E (d.quoteIdentifier name) := by
  rw [quoteIdentifier]
  split
  · split
    · exact .ok _
    · exact .error (hE _ _ _)
  · exact .ok _

theorem failsWith_quoteQualified (qualifier : Option String) (name : String) :
    FailsWith E (d.quoteQualified qualifier name) := by
  cases qualifier with
  | none => exact failsWith_quoteIdentifier hE d name
  | some table =>
      refine (failsWith_quoteIdentifier hE d table).bind fun _ => ?_
      exact (failsWith_quoteIdentifier hE d name).bind fun _ => .ok _

end

end Dialect

theorem Choice.failsWith_ofArgs {function : String}
    (hE : ∀ fault, E (.invalidArgument function fault)) (args : List (Arg α)) :
    FailsWith E (Choice.ofArgs function args) := by
  have hnamed : ∀ b : Branches α, FailsWith E (b.addNamed function args) := by
    induction args with
    | nil => exact fun b => .ok b
    | cons arg rest ih =>
        intro b
        obtain ⟨name, x⟩ := arg
        cases name with
        | none => exact ih b
        | some name =>
            rw [Branches.addNamed]
            split
            · exact .error (hE _)
            · split
              · exact .error (hE _)
              · exact ih _
  refine (hnamed .empty).bind fun named => ?_
  rw [Branches.toChoice]
  split
  · exact .ok _
  · exact .error (hE _)

namespace Compiler

theorem failsWith_integerLiteral {function : String}
    (hE : ∀ fault, E (.invalidArgument function fault)) (e : Expr) :
    FailsWith E (integerLiteral function e) := by
  unfold integerLiteral
  split
  · exact .ok _
  · split
    · exact .ok _
    · exact .error (hE _)
  · exact .error (hE _)

open CompileM

variable {K : (α : Type) → CompileM α → Prop}

/-! ## Operands -/

section

variable (K)

def FrameHolds (frame : Option Frame) : Prop := ∀ f ∈ frame, K _ f.order

/-- The property holds wherever windows are allowed, if it holds of their ordering. -/
def CompiledHolds (m : Compiled) : Prop := ∀ frame, FrameHolds K frame → K _ (m frame)

def CandidatesHold : Candidates → Prop
  | .each items => ∀ m ∈ items, CompiledHolds K m
  | .value m => CompiledHolds K m

structure OperandHolds (o : Operand) : Prop where
  value : CompiledHolds K o.value
  key : K _ o.key
  candidates : CandidatesHold K o.candidates

end

/-- The table gives a call the arguments that are read of it, or `E` allows for missing ones. -/
def Provides (c : Compiler) (E : Error → Prop) : Prop :=
  ∀ function arity entry, c.functions.lookup function arity = .found entry →
    ∀ i < entry.form.reads, i < arity ∨ E (.missingArgument function i)

variable {c : Compiler}

theorem frameHolds_none : FrameHolds K none := nofun

section

variable (h : IsInherited K E)

include h

theorem holds_column (qualifier : Option String) (name : String) :
    K _ (c.column qualifier name) :=
  h.attempt (c.dialect.failsWith_quoteQualified (fun _ _ _ => h.others _ rfl) qualifier name)

theorem holds_withWindow (qualifier : Option String) (frame : Frame) (body : Term)
    {order : CompileM (List Term)} (horder : K _ order) (running : Bool) :
    K _ (c.withWindow qualifier frame body order running) :=
  h.bind (h.mapM fun _ _ => holds_column h _ _) fun _ => h.bind horder fun _ => h.pure _

theorem holds_withWindowIfAllowed (qualifier : Option String) (frame : Option Frame)
    (body : Term) : K _ (c.withWindowIfAllowed qualifier frame body) := by
  cases frame with
  | none => exact h.pure body
  | some frame => exact holds_withWindow h qualifier frame body (h.pure []) false

theorem holds_conditional {condition value : Compiled} {otherwise : Option Compiled}
    (hcondition : CompiledHolds K condition) (hvalue : CompiledHolds K value)
    (hotherwise : ∀ m ∈ otherwise, CompiledHolds K m) :
    CompiledHolds K (conditional condition value otherwise) := by
  intro frame hframe
  refine h.bind (hcondition frame hframe) fun _ => h.bind (hvalue frame hframe) fun _ => ?_
  cases otherwise with
  | none => exact h.pure _
  | some m => exact h.bind (hotherwise m rfl frame hframe) fun _ => h.pure _

theorem holds_membership {operand : Compiled} {candidates : Candidates}
    (hoperand : CompiledHolds K operand) (hcandidates : CandidatesHold K candidates) :
    CompiledHolds K (c.membership operand candidates) := by
  intro frame hframe
  refine h.bind (hoperand frame hframe) fun _ => ?_
  cases candidates with
  | each items =>
      cases items with
      | nil => exact h.pure _
      | cons => exact h.bind (h.mapM fun m hm => hcandidates m hm frame hframe) fun _ => h.pure _
  | value m => exact h.bind (hcandidates frame hframe) fun _ => h.pure _

/-! ## Calls -/

section

variable {args : List (Arg Operand)} {frame : Option Frame} {function : String}
  (hargs : ∀ arg ∈ args, OperandHolds K arg.value) (hframe : FrameHolds K frame)

include hargs

theorem holds_argument {i : Nat} (hi : i < args.length ∨ E (.missingArgument function i))
    {f : Operand → CompileM β} (hf : ∀ o, OperandHolds K o → K _ (f o)) :
    K _ (argument function args i >>= f) := by
  refine h.bind_of ?_ (.argument hargs function i) hf
  rw [argument]
  split
  · exact h.pure _
  · next hnone =>
      have hlength := List.getElem?_eq_none_iff.1 hnone
      exact h.throw (hi.resolve_left (Nat.not_lt.2 hlength))

include hframe

theorem holds_values : K _ (values args frame) :=
  h.mapM fun arg harg => (hargs arg harg).value frame hframe

/-- A call that goes on with the term of one of its arguments. -/
theorem holds_term_argument {i : Nat} (hi : i < args.length ∨ E (.missingArgument function i))
    {f : Term → CompileM β} (hf : ∀ t, K _ (f t)) :
    K _ (do f (← (← argument function args i).value frame)) :=
  holds_argument h hargs hi fun _ ho => h.bind (ho.value frame hframe) hf

omit hframe in
theorem holds_scalars : K _ (values args none) := holds_values h hargs frameHolds_none

theorem holds_special (qualifier : Option String) (form : SpecialForm)
    (hreads : ∀ i < (SqlForm.special form).reads,
      i < args.length ∨ E (.missingArgument function i)) :
    K _ (c.special qualifier function args frame form) := by
  have hvalues := holds_values h hargs hframe
  have hfault : ∀ fault, E (.invalidArgument function fault) := fun _ => h.others _ rfl
  have argument := fun i hi => @holds_term_argument Term E K h args frame function hargs hframe i hi
  have operand := fun i hi => @holds_argument Term E K h args function hargs i hi
  cases form with
  | conditional =>
      refine h.bind_of (h.attempt (Choice.failsWith_ofArgs hfault args))
        (.attempt fun choice hchoice => Choice.forall_of_ofArgs hargs hchoice) ?_
      rintro choice ⟨hcondition, hvalue, hotherwise⟩
      refine holds_conditional h hcondition.value hvalue.value ?_ frame hframe
      intro m hm
      obtain ⟨o, ho, rfl⟩ := Option.map_eq_some_iff.1 hm
      exact (hotherwise o ho).value
  | isNull | length | cast => exact argument 0 (hreads 0 Nat.one_pos) fun _ => h.pure _
  | between =>
      refine argument 0 (hreads 0 (by decide)) fun _ => ?_
      refine argument 1 (hreads 1 (by decide)) fun _ => ?_
      exact argument 2 (hreads 2 (by decide)) fun _ => h.pure _
  | inSet =>
      refine operand 0 (hreads 0 (by decide)) fun _ hoperand => ?_
      refine operand 1 (hreads 1 (by decide)) fun _ hitems => ?_
      exact holds_membership h hoperand.value hitems.candidates frame hframe
  | nDistinct =>
      exact h.bind (holds_scalars h hargs) fun _ =>
        holds_withWindowIfAllowed h qualifier frame _
  | nullIf | pmin | pmax => exact h.bind hvalues fun _ => h.pure _
  | substr =>
      refine operand 0 (hreads 0 (by decide)) fun _ hstring => ?_
      refine operand 1 (hreads 1 (by decide)) fun _ _ => ?_
      refine h.bind (h.attempt (failsWith_integerLiteral hfault _)) fun _ => ?_
      refine operand 2 (hreads 2 (by decide)) fun _ _ => ?_
      refine h.bind (h.attempt (failsWith_integerLiteral hfault _)) fun _ => ?_
      exact h.bind (hstring.value frame hframe) fun _ => h.pure _
  | logBase =>
      refine argument 0 (hreads 0 (by decide)) fun _ => ?_
      exact argument 1 (hreads 1 (by decide)) fun _ => h.pure _
  | concat separator =>
      refine h.bind hvalues fun parts => ?_
      dsimp only
      split <;> exact h.pure _
  | descending => exact h.throw (hfault _)

theorem holds_writeAs (qualifier : Option String) (form : SqlForm)
    (hreads : ∀ i < form.reads, i < args.length ∨ E (.missingArgument function i)) :
    K _ (c.writeAs qualifier function args frame form) := by
  have hvalues := holds_values h hargs hframe
  have hscalars := holds_scalars h hargs
  have argument := fun i hi => @holds_term_argument Term E K h args frame function hargs hframe i hi
  -- an ordering is asked for only where there is a window
  have hwindow : ∀ {rest : Frame → CompileM Term}, (∀ f, K _ f.order → K _ (rest f)) →
      K _ (requireWindow function frame >>= rest) := by
    intro rest hrest
    cases frame with
    | none => exact h.throw (h.others _ rfl)
    | some f => exact hrest f (hframe f rfl)
  cases form with
  | binary op =>
      refine argument 0 (hreads 0 Nat.two_pos) fun _ => ?_
      exact argument 1 (hreads 1 Nat.one_lt_two) fun _ => h.pure _
  | unary op => cases op <;> exact argument 0 (hreads 0 Nat.one_pos) fun _ => h.pure _
  | scalar sql => exact h.bind hvalues fun _ => h.pure _
  | aggregate sql =>
      exact h.bind hscalars fun _ => holds_withWindowIfAllowed h qualifier frame _
  | countStar => exact holds_withWindowIfAllowed h qualifier frame _
  | ranking sql =>
      refine hwindow fun f horder => ?_
      cases args with
      | nil => exact holds_withWindow h qualifier f _ horder false
      | cons arg rest =>
          refine holds_withWindow h qualifier f _ ?_ false
          exact h.bind (hargs arg List.mem_cons_self).key fun _ => h.pure _
  | offset sql =>
      refine hwindow fun f horder => ?_
      exact h.bind hscalars fun _ => holds_withWindow h qualifier f _ horder false
  | cumulative sql =>
      refine hwindow fun f horder => ?_
      exact h.bind hscalars fun _ => holds_withWindow h qualifier f _ horder true
  | ntile =>
      refine hwindow fun f _ => holds_argument h hargs (hreads 0 (by decide)) fun _ hkey => ?_
      refine holds_term_argument h hargs frameHolds_none (hreads 1 (by decide)) fun _ => ?_
      exact holds_withWindow h qualifier f _ (h.bind hkey.key fun _ => h.pure _) false
  | special form => exact holds_special h hargs hframe qualifier form hreads

omit hargs hframe in
theorem holds_warnIfNamed (function : String) (args : List (Arg Operand)) :
    K _ (warnIfNamed function args) := by
  unfold warnIfNamed
  split
  · exact h.pure _
  · exact h.warn _

theorem holds_verbatim : K _ (c.verbatim function args frame) := by
  unfold verbatim
  by_cases hstrict : c.config.strictSql = true
  · rw [if_pos hstrict]
    have hthrow : (throw (.unknownFunction function args.length) : CompileM PUnit).Ensures
        fun _ => False := .throw _
    exact h.bind_of (h.throw (h.others _ rfl)) hthrow fun _ hfalse => hfalse.elim
  · rw [if_neg hstrict]
    refine h.bind (holds_warnIfNamed h function args) fun _ => ?_
    split
    · next op left right _ =>
        refine h.bind ((hargs left (by simp)).value frame hframe) fun _ => ?_
        exact h.bind ((hargs right (by simp)).value frame hframe) fun _ => h.pure _
    · exact h.bind (holds_values h hargs hframe) fun _ => h.pure _

/-- A call of any operands that have the property. -/
theorem holds_call (hc : c.Provides E) (qualifier : Option String) :
    K _ (c.call qualifier function args frame) := by
  rw [call]
  split
  · exact holds_verbatim h hargs hframe
  · exact h.throw (h.others _ rfl)
  · next entry hentry =>
      have hwrite := holds_writeAs (c := c) h hargs hframe qualifier entry.form
        (hc function args.length entry hentry)
      split
      · exact h.bind (holds_warnIfNamed h function args) fun _ => hwrite
      · exact hwrite

end

/-! ## Expressions -/

theorem operandHolds_of {qualifier : Option String} {e : Expr}
    (hterm : CompiledHolds K (c.term qualifier e))
    (hinner : ∀ arg ∈ c.operandsWithin qualifier e, OperandHolds K arg.value) :
    OperandHolds K (.of e (c.term qualifier e) (c.operandsWithin qualifier e)) where
  value := hterm
  key := by
    simp only [Operand.of]
    split
    · next arg heq =>
        have harg := (hinner arg (by simp [heq])).value none frameHolds_none
        exact h.bind harg fun _ => h.pure _
    · exact hterm none frameHolds_none
  candidates := by
    simp only [Operand.of]
    split
    · rw [CandidatesHold, List.forall_mem_map]
      exact fun arg harg => (hinner arg harg).value
    · exact List.forall_mem_singleton.2 hterm
    · exact hterm

variable (hc : c.Provides E)

include hc

theorem holds_term (qualifier : Option String) (e : Expr) :
    CompiledHolds K (c.term qualifier e) ∧
      ∀ arg ∈ c.operandsWithin qualifier e, OperandHolds K arg.value := by
  induction e using Expr.induct with
  | step e ih =>
    have hempty : ∀ arg ∈ ([] : List (Arg Operand)), OperandHolds K arg.value := nofun
    cases e with
    | column name =>
        exact ⟨fun _ _ => h.bind (holds_column h qualifier name) fun _ => h.pure _, hempty⟩
    | literal value => exact ⟨fun _ _ => h.pure _, hempty⟩
    | call function args window =>
        have hargs : ∀ arg ∈ c.operands qualifier args, OperandHolds K arg.value := by
          rw [operands_eq_map, List.forall_mem_map]
          intro arg harg
          obtain ⟨hterm, hinner⟩ := ih arg.value (List.mem_map_of_mem harg)
          exact operandHolds_of h hterm hinner
        refine ⟨fun frame hframe => ?_, hargs⟩
        rw [term]
        exact holds_call h hargs hframe hc qualifier
    | conditional condition value otherwise =>
        have hcondition := (ih condition (by simp [Expr.children])).1
        have hvalue := (ih value (by simp [Expr.children])).1
        refine ⟨fun frame hframe => ?_, hempty⟩
        cases otherwise with
        | none =>
            rw [term]
            exact holds_conditional h hcondition hvalue (by simp) frame hframe
        | some otherwise =>
            have hotherwise := (ih otherwise (by simp [Expr.children])).1
            rw [term]
            refine holds_conditional h hcondition hvalue ?_ frame hframe
            rintro m ⟨⟩
            exact hotherwise
    | inList operand candidates =>
        have hoperand := (ih operand (by simp [Expr.children])).1
        have hcandidates : CandidatesHold K (.each (candidates.map (c.term qualifier))) :=
          List.forall_mem_map.2 fun e he => (ih e (List.mem_cons_of_mem _ he)).1
        refine ⟨fun frame hframe => ?_, hempty⟩
        rw [term, terms_eq_map]
        exact holds_membership h hoperand hcandidates frame hframe
    | inExpr operand candidates =>
        have hoperand := (ih operand (by simp [Expr.children])).1
        have hcandidates : CandidatesHold K (.value (c.term qualifier candidates)) :=
          (ih candidates (by simp [Expr.children])).1
        refine ⟨fun frame hframe => ?_, hempty⟩
        rw [term]
        exact holds_membership h hoperand hcandidates frame hframe
    | binary op left right =>
        have hleft := (ih left (by simp [Expr.children])).1
        have hright := (ih right (by simp [Expr.children])).1
        refine ⟨fun frame hframe => ?_, hempty⟩
        rw [term]
        exact h.bind (hleft frame hframe) fun _ => h.bind (hright frame hframe) fun _ => h.pure _
    | unary op operand =>
        have hoperand := (ih operand (by simp [Expr.children])).1
        refine ⟨fun frame hframe => ?_, hempty⟩
        cases op <;>
        · rw [term]
          exact h.bind (hoperand frame hframe) fun _ => h.pure _

theorem holds_keyTerm (qualifier : Option String) (key : Expr) {frame : Option Frame}
    (hframe : FrameHolds K frame) : K _ (c.keyTerm qualifier key frame) := by
  have hterm : ∀ e, K _ (c.term qualifier e frame) :=
    fun e => (holds_term h hc qualifier e).1 frame hframe
  unfold keyTerm
  split
  · exact h.bind (hterm _) fun _ => h.pure _
  · exact hterm key

theorem frameHolds_frame (context : Context) : FrameHolds K (c.frame context) := by
  intro f hf
  obtain ⟨window, _, rfl⟩ := Option.map_eq_some_iff.1 hf
  exact h.mapM fun key _ => holds_keyTerm h hc context.qualifier key frameHolds_none

/-- The term of an expression in a context. -/
theorem holds_term_frame (context : Context) (e : Expr) :
    K _ (c.term context.qualifier e (c.frame context)) :=
  (holds_term h hc context.qualifier e).1 _ (frameHolds_frame h hc context)

theorem holds_compile (context : Context) (e : Expr) : K _ (c.compile context e) :=
  h.bind (holds_term_frame h hc context e) fun _ => h.pure _

theorem holds_compileOperand (context : Context) (e : Expr) : K _ (c.compileOperand context e) :=
  h.bind (holds_term_frame h hc context e) fun _ => h.pure _

theorem holds_compileKey (context : Context) (e : Expr) : K _ (c.compileKey context e) :=
  h.bind (holds_keyTerm h hc context.qualifier e (frameHolds_frame h hc context)) fun _ => h.pure _

theorem holds_compileKeys (context : Context) (keys : List Expr) :
    K _ (c.compileKeys context keys) :=
  h.mapM fun key _ => holds_compileKey h hc context key

end

end Compiler

end SqlChain
