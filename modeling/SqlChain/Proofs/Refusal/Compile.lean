import SqlChain.Proofs.Branches
import SqlChain.Proofs.Inherited
import SqlChain.Proofs.Lexical.Compile
import SqlChain.Proofs.Syntax.Expression
import SqlChain.Query.Window

/-!
# What compiling refuses

An expression compiles without a window only if none of its calls is over a window only, at any
depth: no call leaves an argument aside. So a call over rows, whose arguments are compiled without a
window, has no such call within. Compiling never misses a column, since it does not look at which
columns there are.
-/

namespace SqlChain

/-! ## Functions -/

namespace Arity

def isAtMost (n : Nat) : Arity → Bool
  | .exact k => k ≤ n
  | .range _ most => most ≤ n
  | .atLeast _ => false

theorem le_of_isAtMost {n k : Nat} {a : Arity} (h : a.isAtMost n = true)
    (hk : a.accepts k = true) : k ≤ n := by
  cases a <;> simp_all [isAtMost, accepts]
  omega

end Arity

/-- How many arguments a call of this form looks at, if it does not look at all of them. -/
def SqlForm.most : SqlForm → Option Nat
  | .countStar => some 0
  | .ranking _ | .unary _ | .special .isNull | .special .length | .special (.cast _) => some 1
  | .ntile | .binary _ | .special .inSet | .special .logBase => some 2
  | .special .conditional | .special .between | .special .substr => some 3
  | _ => none

namespace Error

def isUnknownColumn : Error → Bool
  | .unknownColumn .. => true
  | _ => false

/-- An error that has nothing to do with missing columns. -/
def NamesKnown (e : Error) : Prop := e.isUnknownColumn = false

end Error

namespace Compiler

/-- No function takes arguments that its form does not look at, and the names that mark candidates
and descending keys are not those of functions over rows. -/
structure LooksAtAll (c : Compiler) : Prop where
  arities : ∀ entry ∈ c.functions.entries, ∀ n ∈ entry.form.most, entry.arity.isAtMost n = true
  markers : ∀ entry ∈ c.functions.entries, entry.name = "c" ∨ entry.name = "desc" →
    (entry.form.isAggregate || entry.form.isWindowOnly) = false

theorem looksAtAll_builtin (dialect : Dialect) (config : Config) :
    (builtin dialect config).LooksAtAll where
  arities := by
    change ∀ entry ∈ FunctionTable.builtin.entries, _
    decide +kernel
  markers := by
    change ∀ entry ∈ FunctionTable.builtin.entries, _
    decide +kernel

/-- Whether a call has a meaning only over a window. -/
def isWindowOnly (c : Compiler) : Expr → Bool
  | .call function args _ => (c.functions.form? function args.length).any SqlForm.isWindowOnly
  | _ => false

/-- Whether a call over rows has a call within, at any depth, that is over a window only. -/
def nestsWindows (c : Compiler) : Expr → Bool
  | .call function args _ =>
    c.isWindowCall function args.length false && args.any fun arg => arg.value.any c.isWindowOnly
  | _ => false

/-- Where there is no window, no call at any depth is over a window only. Windows do not nest
anywhere. -/
structure Allows (c : Compiler) (frame : Option Frame) (e : Expr) : Prop where
  alone : frame = none → e.any c.isWindowOnly = false
  apart : e.any c.nestsWindows = false

/-- The window for the arguments of a call of this form. -/
def innerFrame (form : Option SqlForm) (frame : Option Frame) : Option Frame :=
  if form.any fun form => form.isAggregate || form.isWindowOnly then none else frame

/-- A computation that returns only where something holds, and that does not miss columns. -/
def Grants {α : Type} (m : CompileM α) (P : Prop) : Prop := m.Meets (fun _ => P) Error.NamesKnown

namespace Grants

variable {α β : Type} {P Q : Prop}

theorem imp {m : CompileM α} (hm : Grants m P) (hpq : P → Q) : Grants m Q :=
  CompileM.Meets.imp hm fun _ => hpq

theorem pure (h : P) (a : α) : Grants (pure a) P := CompileM.Meets.pure h

theorem bind {m : CompileM α} {f : α → CompileM β} (hm : Grants m P)
    (hf : P → ∀ a, Grants (f a) Q) : Grants (m >>= f) Q :=
  CompileM.Meets.bind hm fun a h => hf h a

theorem mapM {f : α → CompileM β} {R : α → Prop} {as : List α}
    (h : ∀ a ∈ as, Grants (f a) (R a)) : Grants (as.mapM f) (∀ a ∈ as, R a) :=
  CompileM.Meets.mapM_of h

end Grants

/-! ## Windows -/

theorem Allows.of_none {c : Compiler} {frame : Option Frame} {e : Expr} (h : c.Allows none e) :
    c.Allows frame e :=
  ⟨fun _ => h.alone rfl, h.apart⟩

theorem Allows.of_innerFrame {c : Compiler} {form : Option SqlForm} {frame : Option Frame}
    {e : Expr} (h : c.Allows (innerFrame form frame) e) : c.Allows frame e := by
  rw [innerFrame] at h
  split at h
  · exact h.of_none
  · exact h

theorem Allows.of_children {c : Compiler} {frame : Option Frame} {e : Expr}
    (halone : frame = none → c.isWindowOnly e = false) (hnests : c.nestsWindows e = false)
    (hchildren : ∀ child ∈ e.children, c.Allows frame child) : c.Allows frame e where
  alone := fun hnone =>
    Expr.any_eq_false_of (halone hnone) fun child hchild => (hchildren child hchild).alone hnone
  apart := Expr.any_eq_false_of hnests fun child hchild => (hchildren child hchild).apart

/-- What stands for an integer is a literal, in which there are no calls. -/
theorem grants_integerLiteral (c : Compiler) (function : String) (e : Expr) (frame : Option Frame) :
    Grants (attempt (integerLiteral function e)) (c.Allows frame e) := by
  unfold integerLiteral
  split
  · exact .attempt (fun _ _ => ⟨fun _ => rfl, rfl⟩) (.ok _)
  · refine .attempt (fun _ _ => ⟨fun _ => rfl, rfl⟩) ?_
    split
    · exact .ok _
    · exact .error rfl
  · exact .attempt nofun (.error rfl)

variable {c : Compiler}

theorem grants_withWindow (qualifier : Option String) (f : Frame) (body : Term)
    {order : CompileM (List Term)} {P : Prop} (horder : Grants order P) (running : Bool) :
    Grants (c.withWindow qualifier f body order running) P := by
  have hpartition : Grants (f.partition.mapM (c.column qualifier)) (∀ n ∈ f.partition, True) :=
    .mapM fun name _ => .attempt (fun _ _ => .intro)
      (c.dialect.failsWith_quoteQualified (fun _ _ _ => rfl) _ name)
  exact hpartition.bind fun _ _ => horder.bind fun h _ => .pure h _

theorem grants_withWindowIfAllowed (qualifier : Option String) (frame : Option Frame)
    (body : Term) :
    Grants (c.withWindowIfAllowed qualifier frame body) True := by
  cases frame with
  | none => exact .pure .intro body
  | some f => exact grants_withWindow qualifier f body (.pure .intro []) false

/-! ## Arguments -/

/-- The order of a window does not miss columns either. -/
def FrameGrants (frame : Option Frame) : Prop := ∀ f ∈ frame, Grants f.order True

def IsGranted (c : Compiler) (m : Compiled) (e : Expr) : Prop :=
  ∀ frame, FrameGrants frame → Grants (m frame) (c.Allows frame e)

/-- Candidates that are returned only where something holds of the window. -/
def GrantsEach (allowed : Option Frame → Prop) : Candidates → Prop
  | .each items => ∀ frame, FrameGrants frame →
      Grants (items.mapM fun item => item frame) (allowed frame)
  | .value m => ∀ frame, FrameGrants frame → Grants (m frame) (allowed frame)

structure IsGrantedOperand (c : Compiler) (o : Operand) : Prop where
  value : IsGranted c o.value o.expr
  key : Grants o.key (c.Allows none o.expr)
  candidates : GrantsEach (c.Allows · o.expr) o.candidates

/-- Whoever looks at enough arguments looks at all of them. -/
theorem forall_mem_of_length_le {α : Type} {as : List α} {P : α → Prop} {n : Nat}
    (hlength : as.length ≤ n) (h : ∀ i < n, ∀ a ∈ as[i]?, P a) : ∀ a ∈ as, P a := by
  intro a ha
  obtain ⟨i, hi, rfl⟩ := List.getElem_of_mem ha
  exact h i (Nat.lt_of_lt_of_le hi hlength) _ (List.getElem?_eq_getElem hi)

section

variable {args : List (Arg Operand)} {frame : Option Frame}
  (hargs : ∀ arg ∈ args, IsGrantedOperand c arg.value) (hframe : FrameGrants frame)

include hargs

theorem meets_argument (function : String) (i : Nat) :
    (argument function args i).Meets (fun o => (∀ arg ∈ args[i]?, arg.value = o) ∧
      IsGrantedOperand c o) Error.NamesKnown := by
  rw [argument]
  split
  · next arg harg =>
      rw [harg]
      exact .pure ⟨by simp, hargs arg (List.mem_of_getElem? harg)⟩
  · exact .throw rfl

include hframe

/-- A call that goes on with the term of one of its arguments. -/
theorem grants_argument_bind (function : String) (i : Nat) {P : Prop} {rest : Term → CompileM Term}
    (hrest : (∀ arg ∈ args[i]?, c.Allows frame arg.value.expr) → ∀ t, Grants (rest t) P) :
    Grants (do
      let operand ← argument function args i
      let t ← operand.value frame
      rest t) P := by
  refine CompileM.Meets.bind (meets_argument hargs function i) ?_
  rintro o ⟨harg, ho⟩
  refine (ho.value frame hframe).bind fun hallows => hrest fun arg hmem => ?_
  rw [harg arg hmem]
  exact hallows

theorem grants_values :
    Grants (values args frame) (∀ arg ∈ args, c.Allows frame arg.value.expr) :=
  .mapM fun arg harg => (hargs arg harg).value frame hframe

omit hframe in
theorem grants_values_none : Grants (values args none) (∀ arg ∈ args, c.Allows none arg.value.expr) :=
  grants_values hargs (by simp [FrameGrants])

end

/-! ## Calls -/

theorem grants_conditional {condition value : Compiled} {otherwise : Option Compiled}
    {frame : Option Frame} {P Q R : Prop} (hcondition : Grants (condition frame) P)
    (hvalue : Grants (value frame) Q) (hotherwise : ∀ m ∈ otherwise, Grants (m frame) R) :
    Grants (conditional condition value otherwise frame)
      (P ∧ Q ∧ (otherwise.isSome = true → R)) := by
  refine hcondition.bind fun hp _ => hvalue.bind fun hq _ => ?_
  cases otherwise with
  | none => exact .pure ⟨hp, hq, by simp⟩ _
  | some m => exact (hotherwise m rfl).bind fun hr _ => .pure ⟨hp, hq, fun _ => hr⟩ _

theorem grants_membership {operand : Compiled} {candidates : Candidates} {frame : Option Frame}
    {P : Prop} {allowed : Option Frame → Prop} (hoperand : Grants (operand frame) P)
    (hcandidates : GrantsEach allowed candidates) (hframe : FrameGrants frame) :
    Grants (c.membership operand candidates frame) (P ∧ allowed frame) := by
  refine hoperand.bind fun hp _ => ?_
  cases candidates with
  | each items =>
      have hitems := hcandidates frame hframe
      cases items with
      | nil =>
          -- nothing is compiled, and nothing had to be
          have hallowed : allowed frame := hitems.ensures [] [] [] rfl
          exact .pure ⟨hp, hallowed⟩ _
      | cons item items => exact hitems.bind fun hallowed _ => .pure ⟨hp, hallowed⟩ _
  | value m => exact (hcandidates frame hframe).bind fun hallowed _ => .pure ⟨hp, hallowed⟩ _

section

variable {args : List (Arg Operand)} {frame : Option Frame}
  (hargs : ∀ arg ∈ args, IsGrantedOperand c arg.value) (hframe : FrameGrants frame)

include hargs hframe

theorem grants_special (qualifier : Option String) (function : String) (form : SpecialForm)
    (hlength : ∀ n ∈ (SqlForm.special form).most, args.length ≤ n) :
    Grants (c.special qualifier function args frame form)
      (∀ arg ∈ args, c.Allows (innerFrame (some (.special form)) frame) arg.value.expr) := by
  have hvalues := grants_values hargs hframe
  have hscalars := grants_values_none hargs
  have argument := fun i => @grants_argument_bind c args frame hargs hframe function i
  cases form with
  | conditional =>
      have hchoice : (attempt (Choice.ofArgs function args)).Meets (fun choice =>
          (IsGrantedOperand c choice.condition ∧ IsGrantedOperand c choice.value ∧
            ∀ o ∈ choice.otherwise, IsGrantedOperand c o) ∧
          ∀ arg ∈ args, arg.value = choice.condition ∨ arg.value = choice.value ∨
            arg.value ∈ choice.otherwise) Error.NamesKnown :=
        .attempt (fun choice h => ⟨Choice.forall_of_ofArgs hargs h,
          Choice.mem_of_ofArgs (hlength 3 rfl) h⟩) (Choice.failsWith_ofArgs (fun _ => rfl) args)
      refine CompileM.Meets.bind hchoice ?_
      rintro choice ⟨⟨hcondition, hvalue, hotherwise⟩, hall⟩
      have hparts : ∀ m ∈ choice.otherwise.map (·.value), Grants (m frame)
          (∀ o ∈ choice.otherwise, c.Allows frame o.expr) := by
        intro m hm
        obtain ⟨o, ho, rfl⟩ := Option.map_eq_some_iff.1 hm
        refine ((hotherwise o ho).value frame hframe).imp fun hallows o' ho' => ?_
        rwa [Option.mem_unique ho' ho]
      refine (grants_conditional (hcondition.value frame hframe) (hvalue.value frame hframe)
        hparts).imp ?_
      rintro ⟨hc, hv, ho⟩ arg harg
      rcases hall arg harg with heq | heq | hmem
      · exact heq ▸ hc
      · exact heq ▸ hv
      · exact ho (by simp [Option.isSome_iff_exists.2 ⟨_, hmem⟩]) _ hmem
  | isNull | length | cast =>
      refine argument 0 fun h₀ _ => .pure ?_ _
      exact forall_mem_of_length_le (hlength 1 rfl) fun | 0, _ => h₀
  | between =>
      refine argument 0 fun h₀ _ => argument 1 fun h₁ _ => argument 2 fun h₂ _ => .pure ?_ _
      exact forall_mem_of_length_le (hlength 3 rfl) fun | 0, _ => h₀ | 1, _ => h₁ | 2, _ => h₂
  | inSet =>
      refine CompileM.Meets.bind (meets_argument hargs function 0) ?_
      rintro operand ⟨hfirst, hoperand⟩
      refine CompileM.Meets.bind (meets_argument hargs function 1) ?_
      rintro items ⟨hsecond, hitems⟩
      refine (grants_membership (hoperand.value frame hframe) hitems.candidates hframe).imp ?_
      rintro ⟨hallows, hallowed⟩
      exact forall_mem_of_length_le (hlength 2 rfl) fun
        | 0, _ => fun arg harg => hfirst arg harg ▸ hallows
        | 1, _ => fun arg harg => hsecond arg harg ▸ hallowed
  | nDistinct =>
      exact hscalars.bind fun h _ => (grants_withWindowIfAllowed qualifier frame _).imp fun _ => h
  | nullIf | pmin | pmax => exact hvalues.bind fun h _ => .pure h _
  | substr =>
      refine CompileM.Meets.bind (meets_argument hargs function 0) ?_
      rintro string ⟨hfirst, hstring⟩
      refine CompileM.Meets.bind (meets_argument hargs function 1) ?_
      rintro start ⟨hsecond, _⟩
      refine (grants_integerLiteral c function start.expr frame).bind fun hstart _ => ?_
      refine CompileM.Meets.bind (meets_argument hargs function 2) ?_
      rintro stop ⟨hthird, _⟩
      refine (grants_integerLiteral c function stop.expr frame).bind fun hstop _ => ?_
      refine (hstring.value frame hframe).bind fun hallows _ => .pure ?_ _
      exact forall_mem_of_length_le (hlength 3 rfl) fun
        | 0, _ => fun arg harg => hfirst arg harg ▸ hallows
        | 1, _ => fun arg harg => hsecond arg harg ▸ hstart
        | 2, _ => fun arg harg => hthird arg harg ▸ hstop
  | logBase =>
      refine argument 0 fun h₀ _ => argument 1 fun h₁ _ => .pure ?_ _
      exact forall_mem_of_length_le (hlength 2 rfl) fun | 0, _ => h₀ | 1, _ => h₁
  | concat separator =>
      refine hvalues.bind fun h parts => ?_
      dsimp only
      split <;> exact .pure h _
  | descending => exact .throw rfl

omit hargs hframe in
theorem meets_requireWindow (function : String) :
    (requireWindow function frame).Meets (fun f => frame = some f) Error.NamesKnown := by
  cases frame with
  | none => exact .throw rfl
  | some f => exact .pure rfl

theorem grants_writeAs (qualifier : Option String) (function : String) (form : SqlForm)
    (hlength : ∀ n ∈ form.most, args.length ≤ n) :
    Grants (c.writeAs qualifier function args frame form)
      ((frame = none → form.isWindowOnly = false) ∧
        ∀ arg ∈ args, c.Allows (innerFrame (some form) frame) arg.value.expr) := by
  have hvalues := grants_values hargs hframe
  have hscalars := grants_values_none hargs
  have argument := fun i => @grants_argument_bind c args frame hargs hframe function i
  cases form with
  | binary op =>
      refine argument 0 fun h₀ _ => argument 1 fun h₁ _ => .pure ⟨fun _ => rfl, ?_⟩ _
      exact forall_mem_of_length_le (hlength 2 rfl) fun | 0, _ => h₀ | 1, _ => h₁
  | unary op =>
      cases op
      all_goals
        refine argument 0 fun h₀ _ => .pure ⟨fun _ => rfl, ?_⟩ _
        exact forall_mem_of_length_le (hlength 1 rfl) fun | 0, _ => h₀
  | scalar sql => exact hvalues.bind fun h _ => .pure ⟨fun _ => rfl, h⟩ _
  | aggregate sql =>
      refine hscalars.bind fun h _ => ?_
      exact (grants_withWindowIfAllowed qualifier frame _).imp fun _ => ⟨fun _ => rfl, h⟩
  | countStar =>
      have hnone := List.eq_nil_of_length_eq_zero (Nat.le_zero.1 (hlength 0 rfl))
      refine (grants_withWindowIfAllowed qualifier frame _).imp fun _ => ⟨fun _ => rfl, ?_⟩
      simp [hnone]
  | ranking sql =>
      refine CompileM.Meets.bind (meets_requireWindow function) ?_
      rintro f rfl
      cases args with
      | nil =>
          exact (grants_withWindow qualifier f _ (hframe f rfl) false).imp fun _ => by simp
      | cons arg rest =>
          have hkey := (hargs arg (by simp)).key.bind fun h t => Grants.pure h [t]
          refine (grants_withWindow qualifier f _ hkey false).imp fun h => ⟨nofun, ?_⟩
          refine forall_mem_of_length_le (hlength 1 rfl) fun | 0, _ => fun first hfirst => ?_
          cases hfirst
          exact h
  | offset sql | cumulative sql =>
      refine CompileM.Meets.bind (meets_requireWindow function) ?_
      rintro f rfl
      refine hscalars.bind fun h _ => ?_
      exact (grants_withWindow qualifier f _ (hframe f rfl) _).imp fun _ => ⟨nofun, h⟩
  | ntile =>
      refine CompileM.Meets.bind (meets_requireWindow function) ?_
      rintro f rfl
      refine CompileM.Meets.bind (meets_argument hargs function 0) ?_
      rintro key ⟨hfirst, hkey⟩
      have hnone : FrameGrants none := by simp [FrameGrants]
      refine grants_argument_bind hargs hnone function 1 fun h₁ _ => ?_
      have hkeys := hkey.key.bind fun h t => Grants.pure h [t]
      refine (grants_withWindow qualifier f _ hkeys false).imp fun h₀ => ⟨nofun, ?_⟩
      exact forall_mem_of_length_le (hlength 2 rfl) fun
        | 0, _ => fun arg harg => hfirst arg harg ▸ h₀
        | 1, _ => h₁
  | special form =>
      exact (grants_special hargs hframe qualifier function form hlength).imp fun h =>
        ⟨fun _ => by cases form <;> rfl, h⟩

omit hargs hframe in
theorem grants_warnIfNamed (function : String) : Grants (warnIfNamed function args) True := by
  unfold warnIfNamed
  split
  · exact .pure .intro _
  · exact ⟨fun _ _ _ _ => .intro, by rintro _ _ _ ⟨⟩⟩

theorem grants_verbatim (function : String) :
    Grants (c.verbatim function args frame) (∀ arg ∈ args, c.Allows frame arg.value.expr) := by
  unfold verbatim
  by_cases hstrict : c.config.strictSql = true
  · rw [if_pos hstrict]
    have hthrow : Grants (throw (.unknownFunction function args.length) : CompileM PUnit) False :=
      .throw rfl
    exact hthrow.bind fun h => h.elim
  · rw [if_neg hstrict]
    refine (grants_warnIfNamed function).bind fun _ _ => ?_
    split
    · next op left right _ =>
        refine ((hargs left (by simp)).value frame hframe).bind fun hleft _ => ?_
        refine ((hargs right (by simp)).value frame hframe).bind fun hright _ => .pure ?_ _
        exact List.forall_mem_cons.2 ⟨hleft, List.forall_mem_singleton.2 hright⟩
    · exact (grants_values hargs hframe).bind fun hall _ => .pure hall _

theorem grants_call (h : c.LooksAtAll) (qualifier : Option String) (function : String) :
    Grants (c.call qualifier function args frame)
      ((frame = none → (c.functions.form? function args.length).any SqlForm.isWindowOnly = false) ∧
        ∀ arg ∈ args, c.Allows (innerFrame (c.functions.form? function args.length) frame)
          arg.value.expr) := by
  rw [call, FunctionTable.form?]
  cases hlookup : c.functions.lookup function args.length with
  | unknown => exact (grants_verbatim hargs hframe function).imp fun hall => ⟨fun _ => rfl, hall⟩
  | wrongArity known => exact CompileM.Meets.throw rfl
  | found entry =>
      obtain ⟨hmem, _, haccepts⟩ := FunctionTable.name_eq_of_lookup_found hlookup
      have hwrite := grants_writeAs hargs hframe qualifier function entry.form
        fun n hn => Arity.le_of_isAtMost (h.arities entry hmem n hn) haccepts
      dsimp only
      split
      · exact (grants_warnIfNamed function).bind fun _ _ => hwrite
      · exact hwrite

end

/-! ## Expressions -/

theorem allows_call {frame : Option Frame} {function : String} {args : List (Arg Expr)}
    {window : Bool}
    (hcall : frame = none →
      (c.functions.form? function args.length).any SqlForm.isWindowOnly = false)
    (hargs : ∀ arg ∈ args,
      c.Allows (innerFrame (c.functions.form? function args.length) frame) arg.value) :
    c.Allows frame (.call function args window) := by
  refine .of_children hcall ?_ fun child hchild => ?_
  · rw [nestsWindows, isWindowCall, Bool.false_or]
    by_cases hrows : ((c.functions.form? function args.length).any fun form =>
        form.isAggregate || form.isWindowOnly) = true
    · rw [innerFrame, if_pos hrows] at hargs
      rw [Bool.and_eq_false_iff, List.any_eq_false]
      exact .inr fun arg harg => by simp [(hargs arg harg).alone rfl]
    · simp [hrows]
  · obtain ⟨arg, harg, rfl⟩ := List.mem_map.1 hchild
    exact (hargs arg harg).of_innerFrame

/-- A name that marks an argument does not take the window from it. -/
theorem form?_marker (h : c.LooksAtAll) {name : String} (hname : name = "c" ∨ name = "desc")
    (n : Nat) :
    (c.functions.form? name n).any SqlForm.isWindowOnly = false ∧
      ∀ frame, innerFrame (c.functions.form? name n) frame = frame := by
  rw [FunctionTable.form?]
  split
  · next entry hentry =>
      obtain ⟨hmem, rfl, _⟩ := FunctionTable.name_eq_of_lookup_found hentry
      have hrows := h.markers entry hmem hname
      exact ⟨(Bool.or_eq_false_iff.1 hrows).2, fun frame => if_neg (by simp [hrows])⟩
  · exact ⟨rfl, fun _ => rfl⟩

theorem forall_operands {qualifier : Option String} {args : List (Arg Expr)} {P : Expr → Prop} :
    (∀ arg ∈ c.operands qualifier args, P arg.value.expr) ↔ ∀ arg ∈ args, P arg.value := by
  rw [operands_eq_map, List.forall_mem_map]
  rfl

theorem isGrantedOperand_of (h : c.LooksAtAll) {qualifier : Option String} {e : Expr}
    (hterm : IsGranted c (c.term qualifier e) e)
    (hinner : ∀ arg ∈ c.operandsWithin qualifier e, IsGrantedOperand c arg.value) :
    IsGrantedOperand c (.of e (c.term qualifier e) (c.operandsWithin qualifier e)) where
  value := hterm
  key := by
    have hnone : FrameGrants none := by simp [FrameGrants]
    simp only [Operand.of]
    split
    · next args window arg heq =>
        rw [operandsWithin] at hinner heq
        have harg := (hinner arg (by simp [heq])).value none hnone
        refine harg.bind fun hallows _ => .pure ?_ _
        obtain ⟨halone, hframe⟩ := form?_marker h (.inr rfl) args.length
        refine allows_call (fun _ => halone) ?_
        have hoperands : ∀ arg ∈ c.operands qualifier args, c.Allows none arg.value.expr := by
          rw [heq]
          exact List.forall_mem_singleton.2 hallows
        rw [hframe]
        exact forall_operands.1 hoperands
    · exact hterm none hnone
  candidates := by
    simp only [Operand.of]
    split
    · next args window =>
        rw [operandsWithin] at hinner ⊢
        intro frame hframe
        have hitems : Grants (((c.operands qualifier args).map fun arg => arg.value.value).mapM
            fun item => item frame) (∀ arg ∈ c.operands qualifier args,
              c.Allows frame arg.value.expr) := by
          rw [List.mapM_map]
          exact .mapM fun arg harg => (hinner arg harg).value frame hframe
        obtain ⟨halone, hinnerFrame⟩ := form?_marker h (.inl rfl) args.length
        refine hitems.imp fun hall => allows_call (fun _ => halone) ?_
        rw [hinnerFrame]
        exact forall_operands.1 hall
    · intro frame hframe
      rw [List.mapM_cons, List.mapM_nil]
      exact (hterm frame hframe).bind fun hallows _ => .pure hallows _
    · exact hterm

theorem isGranted_term (h : c.LooksAtAll) (qualifier : Option String) (e : Expr) :
    IsGranted c (c.term qualifier e) e ∧
      ∀ arg ∈ c.operandsWithin qualifier e, IsGrantedOperand c arg.value := by
  induction e using Expr.induct with
  | step e ih =>
    have hempty : ∀ arg ∈ ([] : List (Arg Operand)), IsGrantedOperand c arg.value := by simp
    cases e with
    | column name =>
        refine ⟨fun frame _ => ?_, hempty⟩
        rw [term]
        refine CompileM.Meets.bind (.attempt (fun _ _ => True.intro)
          (c.dialect.failsWith_quoteQualified (fun _ _ _ => rfl) qualifier name)) fun _ _ => ?_
        exact .pure ⟨fun _ => rfl, rfl⟩
    | literal value => exact ⟨fun frame _ => .pure ⟨fun _ => rfl, rfl⟩ _, hempty⟩
    | call function args window =>
        have hargs : ∀ arg ∈ c.operands qualifier args, IsGrantedOperand c arg.value := by
          rw [operands_eq_map, List.forall_mem_map]
          intro arg harg
          obtain ⟨hterm, hinner⟩ := ih arg.value (List.mem_map_of_mem harg)
          exact isGrantedOperand_of h hterm hinner
        refine ⟨fun frame hframe => ?_, hargs⟩
        rw [term]
        refine (grants_call hargs hframe h qualifier function).imp ?_
        rintro ⟨hcall, hall⟩
        rw [operands_eq_map, List.length_map] at hcall hall
        rw [← operands_eq_map] at hall
        exact allows_call hcall (forall_operands.1 hall)
    | conditional condition value otherwise =>
        have hcondition := (ih condition (by simp [Expr.children])).1
        have hvalue := (ih value (by simp [Expr.children])).1
        refine ⟨fun frame hframe => ?_, hempty⟩
        cases otherwise with
        | none =>
            rw [term]
            have hnothing : ∀ m ∈ (none : Option Compiled), Grants (m frame) True := by simp
            refine (grants_conditional (hcondition frame hframe) (hvalue frame hframe)
              hnothing).imp ?_
            rintro ⟨hc, hv, _⟩
            exact .of_children (fun _ => rfl) rfl (by simp [Expr.children, hc, hv])
        | some otherwise =>
            have hotherwise := (ih otherwise (by simp [Expr.children])).1
            have hsome : ∀ m ∈ some (c.term qualifier otherwise),
                Grants (m frame) (c.Allows frame otherwise) := by
              rintro _ ⟨⟩
              exact hotherwise frame hframe
            rw [term]
            refine (grants_conditional (hcondition frame hframe) (hvalue frame hframe) hsome).imp ?_
            rintro ⟨hc, hv, ho⟩
            exact .of_children (fun _ => rfl) rfl (by simp [Expr.children, hc, hv, ho rfl])
    | inList operand candidates =>
        have hoperand := (ih operand (by simp [Expr.children])).1
        refine ⟨fun frame hframe => ?_, hempty⟩
        rw [term, terms_eq_map]
        have hcandidates : GrantsEach (fun frame => ∀ e ∈ candidates, c.Allows frame e)
            (.each (candidates.map (c.term qualifier))) := by
          intro frame hframe
          rw [List.mapM_map]
          exact .mapM fun e he => (ih e (List.mem_cons_of_mem _ he)).1 frame hframe
        refine (grants_membership (hoperand frame hframe) hcandidates hframe).imp ?_
        rintro ⟨hallows, hall⟩
        exact .of_children (fun _ => rfl) rfl (List.forall_mem_cons.2 ⟨hallows, hall⟩)
    | inExpr operand candidates =>
        have hoperand := (ih operand (by simp [Expr.children])).1
        have hcandidates : GrantsEach (c.Allows · candidates)
            (.value (c.term qualifier candidates)) := (ih candidates (by simp [Expr.children])).1
        refine ⟨fun frame hframe => ?_, hempty⟩
        rw [term]
        refine (grants_membership (hoperand frame hframe) hcandidates hframe).imp ?_
        rintro ⟨hallows, hallowed⟩
        exact .of_children (fun _ => rfl) rfl (by simp [Expr.children, hallows, hallowed])
    | binary op left right =>
        have hleft := (ih left (by simp [Expr.children])).1
        have hright := (ih right (by simp [Expr.children])).1
        refine ⟨fun frame hframe => ?_, hempty⟩
        rw [term]
        refine (hleft frame hframe).bind fun hl _ => (hright frame hframe).bind fun hr _ => ?_
        exact .pure (.of_children (fun _ => rfl) rfl (by simp [Expr.children, hl, hr])) _
    | unary op operand =>
        have hoperand := (ih operand (by simp [Expr.children])).1
        refine ⟨fun frame hframe => ?_, hempty⟩
        have hallows : c.Allows frame operand → c.Allows frame (.unary op operand) :=
          fun ho => .of_children (fun _ => rfl) rfl (by simp [Expr.children, ho])
        cases op <;> rw [term] <;>
          exact (hoperand frame hframe).bind fun ho _ => .pure (hallows ho) _

/-! ## Texts -/

theorem grants_keyTerm (h : c.LooksAtAll) (qualifier : Option String) (key : Expr)
    {frame : Option Frame} (hframe : FrameGrants frame) :
    Grants (c.keyTerm qualifier key frame) True := by
  rw [keyTerm]
  split
  · next operand _ =>
      exact ((isGranted_term h qualifier operand).1 frame hframe).bind fun _ _ => .pure .intro _
  · exact ((isGranted_term h qualifier key).1 frame hframe).imp fun _ => .intro

theorem frameGrants_frame (h : c.LooksAtAll) (context : Context) :
    FrameGrants (c.frame context) := by
  intro f hf
  obtain ⟨window, _, rfl⟩ := Option.map_eq_some_iff.1 hf
  have hkeys : Grants (window.order.mapM fun key => c.keyTerm context.qualifier key none)
      (∀ key ∈ window.order, True) :=
    .mapM fun key _ => grants_keyTerm h context.qualifier key (by simp [FrameGrants])
  exact hkeys.imp fun _ => .intro

theorem grants_compile_allows (h : c.LooksAtAll) (context : Context) (e : Expr) :
    Grants (c.compile context e) (c.Allows (c.frame context) e) :=
  ((isGranted_term h context.qualifier e).1 _ (frameGrants_frame h context)).bind
    fun hallows _ => .pure hallows _

theorem grants_compile (h : c.LooksAtAll) (context : Context) (e : Expr) :
    Grants (c.compile context e) (context.window = none → e.any c.isWindowOnly = false) := by
  refine (grants_compile_allows h context e).imp fun hallows hnone => hallows.alone ?_
  rw [frame, hnone, Option.map_none]

theorem grants_compileOperand (h : c.LooksAtAll) (context : Context) (e : Expr) :
    Grants (c.compileOperand context e) True :=
  ((isGranted_term h context.qualifier e).1 _ (frameGrants_frame h context)).bind
    fun _ _ => .pure .intro _

theorem grants_compileKeys (h : c.LooksAtAll) (context : Context) (keys : List Expr) :
    Grants (c.compileKeys context keys) True := by
  have hkeys : Grants (c.compileKeys context keys) (∀ key ∈ keys, True) :=
    .mapM fun key _ => (grants_keyTerm h context.qualifier key (frameGrants_frame h context)).bind
      fun _ _ => .pure .intro _
  exact hkeys.imp fun _ => .intro

end Compiler

end SqlChain
