import SqlChain.Proofs.Written

/-!
# Windows within windows

There are none. What stands behind a window, and the keys of its ordering, are compiled without one,
so that a term with windows has them one deep, and a term that is compiled without one has none
(`flat_term`).
-/

namespace SqlChain

namespace Term

mutual

/-- How many windows stand within one another at most. -/
def windowDepth : Term → Nat
  | .column _ | .literal _ | .countStar => 0
  | .apply _ args | .countDistinct args => windowDepths args
  | .substringFor string _ _ => string.windowDepth
  | .cast operand _ => operand.windowDepth
  | .conditional condition value none => max condition.windowDepth value.windowDepth
  | .conditional condition value (some otherwise) =>
    max (max condition.windowDepth value.windowDepth) otherwise.windowDepth
  | .negate operand | .not operand | .isNull operand => operand.windowDepth
  | .binary _ left right => max left.windowDepth right.windowDepth
  | .between operand low high => max (max operand.windowDepth low.windowDepth) high.windowDepth
  | .inList operand items => max operand.windowDepth (windowDepths items)
  | .inTerm operand items => max operand.windowDepth items.windowDepth
  | .concat parts => windowDepths parts
  | .windowed body _ order _ => max body.windowDepth (windowDepths order) + 1
  | .descending key => key.windowDepth

def windowDepths : List Term → Nat
  | [] => 0
  | t :: rest => max t.windowDepth (windowDepths rest)

end

theorem windowDepths_le_iff {n : Nat} {ts : List Term} :
    windowDepths ts ≤ n ↔ ∀ t ∈ ts, t.windowDepth ≤ n := by
  induction ts with
  | nil => simp [windowDepths]
  | cons t rest ih => rw [windowDepths, Nat.max_le, ih, List.forall_mem_cons]

end Term

namespace Compiler

open CompileM

variable {c : Compiler} {n : Nat}

abbrev Flat (n : Nat) (m : CompileM Term) : Prop := m.Ensures fun t => t.windowDepth ≤ n

abbrev FlatAll (n : Nat) (m : CompileM (List Term)) : Prop :=
  m.Ensures fun ts => Term.windowDepths ts ≤ n

/-! ## Operands -/

/-- There is a window only where one more may stand, and its ordering has none. -/
def FlatFrame (n : Nat) (frame : Option Frame) : Prop := ∀ f ∈ frame, 1 ≤ n ∧ FlatAll 0 f.order

def FlatCompiled (m : Compiled) : Prop := ∀ n frame, FlatFrame n frame → Flat n (m frame)

def FlatEach : Candidates → Prop
  | .each items => ∀ m ∈ items, FlatCompiled m
  | .value m => FlatCompiled m

structure FlatOperand (o : Operand) : Prop where
  value : FlatCompiled o.value
  key : Flat 0 o.key
  candidates : FlatEach o.candidates

theorem flatFrame_none (n : Nat) : FlatFrame n none := by simp [FlatFrame]

theorem FlatCompiled.alone {m : Compiled} (h : FlatCompiled m) : Flat 0 (m none) :=
  h 0 none (flatFrame_none 0)

theorem FlatAll.mapM {α : Type} {f : α → CompileM Term} {as : List α}
    (h : ∀ a ∈ as, Flat n (f a)) : FlatAll n (as.mapM f) :=
  (Ensures.mapM_forall h).imp fun _ => Term.windowDepths_le_iff.2

theorem flatAll_key {key : CompileM Term} (h : Flat n key) : FlatAll n (do return [← key]) :=
  h.bind fun _ ht => .pure (Term.windowDepths_le_iff.2 (List.forall_mem_singleton.2 ht))

theorem flat_withWindow (qualifier : Option String) (frame : Frame) (hn : 1 ≤ n) {body : Term}
    (hbody : body.windowDepth ≤ 0) {order : CompileM (List Term)} (horder : FlatAll 0 order)
    (running : Bool) : Flat n (c.withWindow qualifier frame body order running) := by
  refine .bind_any fun _ => horder.bind fun _ hkeys => .pure ?_
  rw [Term.windowDepth]
  omega

theorem flat_withWindowIfAllowed (qualifier : Option String) {frame : Option Frame}
    (hframe : FlatFrame n frame) {body : Term} (hbody : body.windowDepth ≤ 0) :
    Flat n (c.withWindowIfAllowed qualifier frame body) := by
  cases frame with
  | none => exact .pure (Nat.le_trans hbody (Nat.zero_le n))
  | some f =>
      have hempty : FlatAll 0 (pure []) := .pure (Nat.zero_le _)
      exact flat_withWindow qualifier f (hframe f rfl).1 hbody hempty false

theorem flat_conditional {condition value : Compiled} {otherwise : Option Compiled}
    (hcondition : FlatCompiled condition) (hvalue : FlatCompiled value)
    (hotherwise : ∀ m ∈ otherwise, FlatCompiled m) :
    FlatCompiled (conditional condition value otherwise) := by
  intro n frame hframe
  refine (hcondition n frame hframe).bind fun _ ht => (hvalue n frame hframe).bind fun _ hu => ?_
  cases otherwise with
  | none => exact .pure (Nat.max_le.2 ⟨ht, hu⟩)
  | some m =>
      refine (hotherwise m rfl n frame hframe).bind fun _ hv => .pure ?_
      exact Nat.max_le.2 ⟨Nat.max_le.2 ⟨ht, hu⟩, hv⟩

theorem flat_membership {operand : Compiled} {candidates : Candidates}
    (hoperand : FlatCompiled operand) (hcandidates : FlatEach candidates) :
    FlatCompiled (c.membership operand candidates) := by
  intro n frame hframe
  refine (hoperand n frame hframe).bind fun _ ht => ?_
  cases candidates with
  | each items =>
      cases items with
      | nil => exact .pure (Nat.zero_le n)
      | cons item items =>
          have hitems : FlatAll n ((item :: items).mapM fun item => item frame) :=
            .mapM fun m hm => hcandidates m hm n frame hframe
          exact Ensures.bind hitems fun _ hus => .pure (Nat.max_le.2 ⟨ht, hus⟩)
  | value m => exact (hcandidates n frame hframe).bind fun _ hu => .pure (Nat.max_le.2 ⟨ht, hu⟩)

theorem windowDepth_substring {string : Term} (hstring : string.windowDepth ≤ n)
    (start length : Int64) : (c.substring string start length).windowDepth ≤ n := by
  rw [substring]
  split <;> simp [Term.windowDepth, Term.windowDepths, hstring]

/-! ## Calls -/

section

variable {args : List (Arg Operand)} {frame : Option Frame}
  (hargs : ∀ arg ∈ args, FlatOperand arg.value) (hframe : FlatFrame n frame)

include hargs hframe

theorem flatAll_values : FlatAll n (values args frame) :=
  .mapM fun arg harg => (hargs arg harg).value n frame hframe

/-- A call that goes on with the term of one of its arguments. -/
theorem flat_term_argument {function : String} {i m : Nat} {rest : Term → CompileM Term}
    (hrest : ∀ t, t.windowDepth ≤ n → Flat m (rest t)) :
    Flat m (do rest (← (← argument function args i).value frame)) :=
  (Ensures.argument hargs function i).bind fun _ ho => (ho.value n frame hframe).bind hrest

omit hframe in
theorem flatAll_values_none : FlatAll 0 (values args none) := flatAll_values hargs (flatFrame_none 0)

theorem flat_special (qualifier : Option String) (function : String) (form : SpecialForm) :
    Flat n (c.special qualifier function args frame form) := by
  have hvalues := flatAll_values hargs hframe
  cases form with
  | conditional =>
      refine Ensures.bind (.attempt fun choice hchoice =>
        Choice.forall_of_ofArgs hargs hchoice) ?_
      rintro choice ⟨hcondition, hvalue, hotherwise⟩
      refine flat_conditional hcondition.value hvalue.value (fun m hm => ?_) n frame hframe
      obtain ⟨o, ho, rfl⟩ := Option.map_eq_some_iff.1 hm
      exact (hotherwise o ho).value
  | isNull | cast => exact flat_term_argument hargs hframe fun _ ht => .pure ht
  | length =>
      exact flat_term_argument hargs hframe fun _ ht =>
        .pure (Term.windowDepths_le_iff.2 (List.forall_mem_singleton.2 ht))
  | between =>
      refine flat_term_argument hargs hframe fun _ ht => ?_
      refine flat_term_argument hargs hframe fun _ hu => ?_
      refine flat_term_argument hargs hframe fun _ hv => .pure ?_
      exact Nat.max_le.2 ⟨Nat.max_le.2 ⟨ht, hu⟩, hv⟩
  | inSet =>
      refine (Ensures.argument hargs function 0).bind fun _ hoperand => ?_
      refine (Ensures.argument hargs function 1).bind fun _ hitems => ?_
      exact flat_membership hoperand.value hitems.candidates n frame hframe
  | nDistinct =>
      exact (flatAll_values_none hargs).bind fun _ hts =>
        flat_withWindowIfAllowed qualifier hframe hts
  | nullIf | pmin | pmax => exact hvalues.bind fun _ hts => .pure hts
  | substr =>
      refine (Ensures.argument hargs function 0).bind fun _ hstring => ?_
      refine .bind_any fun _ => .bind_any fun _ => .bind_any fun _ => .bind_any fun _ => ?_
      exact (hstring.value n frame hframe).bind fun _ ht => .pure (windowDepth_substring ht _ _)
  | logBase =>
      refine flat_term_argument hargs hframe fun _ ht => ?_
      refine flat_term_argument hargs hframe fun _ hu => .pure ?_
      have hlogs := Nat.max_le.2 ⟨ht, hu⟩
      simpa [Term.windowDepth, Term.windowDepths] using hlogs
  | concat separator =>
      refine hvalues.bind fun ts hts => ?_
      have hseparator : ∀ t ∈ separator.map fun s => c.literal (.utf8 s), t.windowDepth ≤ n := by
        intro t ht
        obtain ⟨s, _, rfl⟩ := Option.map_eq_some_iff.1 ht
        exact Nat.zero_le n
      have hparts := Term.windowDepths_le_iff.2
        (Written.forall_mem_separated hseparator (Term.windowDepths_le_iff.1 hts))
      dsimp only
      split <;> exact .pure hparts
  | descending => exact .throw _

theorem flat_writeAs (qualifier : Option String) (function : String) (form : SqlForm) :
    Flat n (c.writeAs qualifier function args frame form) := by
  have hscalars := flatAll_values_none hargs
  -- an ordering is asked for only where there is a window
  have hwindow : ∀ {rest : Frame → CompileM Term},
      (∀ f, 1 ≤ n → FlatAll 0 f.order → Flat n (rest f)) →
        Flat n (requireWindow function frame >>= rest) := by
    intro rest hrest
    cases frame with
    | none => exact .throw _
    | some f => exact hrest f (hframe f rfl).1 (hframe f rfl).2
  cases form with
  | binary op =>
      refine flat_term_argument hargs hframe fun _ ht => ?_
      exact flat_term_argument hargs hframe fun _ hu => .pure (Nat.max_le.2 ⟨ht, hu⟩)
  | unary op => cases op <;> exact flat_term_argument hargs hframe fun _ ht => .pure ht
  | scalar sql => exact (flatAll_values hargs hframe).bind fun _ hts => .pure hts
  | aggregate sql =>
      exact hscalars.bind fun _ hts => flat_withWindowIfAllowed qualifier hframe hts
  | countStar => exact flat_withWindowIfAllowed qualifier hframe (Nat.le_refl 0)
  | ranking sql =>
      refine hwindow fun f hn horder => ?_
      cases args with
      | nil =>
          refine flat_withWindow qualifier f hn ?_ horder false
          exact Nat.le_refl 0
      | cons arg rest =>
          refine flat_withWindow qualifier f hn ?_ (flatAll_key ?_) false
          · exact Nat.le_refl 0
          · exact (hargs arg List.mem_cons_self).key
  | offset sql | cumulative sql =>
      refine hwindow fun f hn horder => hscalars.bind fun _ hts => ?_
      refine flat_withWindow qualifier f hn ?_ horder _
      exact hts
  | ntile =>
      refine hwindow fun f hn _ => ?_
      refine (Ensures.argument hargs function 0).bind fun _ hkey => ?_
      refine flat_term_argument hargs (flatFrame_none 0) fun _ ht => ?_
      refine flat_withWindow qualifier f hn ?_ (flatAll_key hkey.key) false
      exact Term.windowDepths_le_iff.2 (List.forall_mem_singleton.2 ht)
  | special form => exact flat_special hargs hframe qualifier function form

theorem flat_verbatim (function : String) : Flat n (c.verbatim function args frame) := by
  unfold verbatim
  by_cases hstrict : c.config.strictSql = true
  · rw [if_pos hstrict]
    exact Ensures.bind (P := fun _ => False) (.throw _) fun _ h => h.elim
  · rw [if_neg hstrict]
    refine .bind_any fun _ => ?_
    split
    · next op left right _ =>
        refine ((hargs left (by simp)).value n frame hframe).bind fun _ ht => ?_
        refine ((hargs right (by simp)).value n frame hframe).bind fun _ hu => .pure ?_
        exact Nat.max_le.2 ⟨ht, hu⟩
    · exact (flatAll_values hargs hframe).bind fun _ hts => .pure hts

theorem flat_call (qualifier : Option String) (function : String) :
    Flat n (c.call qualifier function args frame) := by
  rw [call]
  split
  · exact flat_verbatim hargs hframe function
  · exact .throw _
  · next entry _ =>
      have hwrite := flat_writeAs (c := c) hargs hframe qualifier function entry.form
      split
      · exact .bind_any fun _ => hwrite
      · exact hwrite

end

/-! ## Expressions -/

theorem flatOperand_of {qualifier : Option String} {e : Expr}
    (hterm : FlatCompiled (c.term qualifier e))
    (hinner : ∀ arg ∈ c.operandsWithin qualifier e, FlatOperand arg.value) :
    FlatOperand (.of e (c.term qualifier e) (c.operandsWithin qualifier e)) where
  value := hterm
  key := by
    simp only [Operand.of]
    split
    · next arg heq =>
        have harg := (hinner arg (by simp [heq])).value.alone
        exact Ensures.bind harg fun _ ht => .pure ht
    · exact hterm.alone
  candidates := by
    simp only [Operand.of]
    split
    · rw [FlatEach, List.forall_mem_map]
      exact fun arg harg => (hinner arg harg).value
    · exact List.forall_mem_singleton.2 hterm
    · exact hterm

theorem flat_term (c : Compiler) (qualifier : Option String) (e : Expr) :
    FlatCompiled (c.term qualifier e) ∧
      ∀ arg ∈ c.operandsWithin qualifier e, FlatOperand arg.value := by
  induction e using Expr.induct with
  | step e ih =>
    have hempty : ∀ arg ∈ ([] : List (Arg Operand)), FlatOperand arg.value := nofun
    have hchild : ∀ child ∈ e.children, FlatCompiled (c.term qualifier child) :=
      fun child hchild => (ih child hchild).1
    cases e with
    | column name => exact ⟨fun n _ _ => .bind_any fun _ => .pure (Nat.zero_le n), hempty⟩
    | literal value => exact ⟨fun n _ _ => .pure (Nat.zero_le n), hempty⟩
    | call function args window =>
        have hargs : ∀ arg ∈ c.operands qualifier args, FlatOperand arg.value := by
          rw [operands_eq_map, List.forall_mem_map]
          intro arg harg
          obtain ⟨hterm, hinner⟩ := ih arg.value (List.mem_map_of_mem harg)
          exact flatOperand_of hterm hinner
        refine ⟨fun n frame hframe => ?_, hargs⟩
        rw [term]
        exact flat_call hargs hframe qualifier function
    | conditional condition value otherwise =>
        have hcondition := hchild condition (by simp [Expr.children])
        have hvalue := hchild value (by simp [Expr.children])
        refine ⟨fun n frame hframe => ?_, hempty⟩
        cases otherwise with
        | none =>
            rw [term]
            exact flat_conditional hcondition hvalue (by simp) n frame hframe
        | some otherwise =>
            have hotherwise := hchild otherwise (by simp [Expr.children])
            rw [term]
            refine flat_conditional hcondition hvalue ?_ n frame hframe
            rintro m ⟨⟩
            exact hotherwise
    | inList operand candidates =>
        have hoperand := hchild operand (by simp [Expr.children])
        have hcandidates : FlatEach (.each (candidates.map (c.term qualifier))) :=
          List.forall_mem_map.2 fun e he => hchild e (List.mem_cons_of_mem _ he)
        refine ⟨fun n frame hframe => ?_, hempty⟩
        rw [term, terms_eq_map]
        exact flat_membership hoperand hcandidates n frame hframe
    | inExpr operand candidates =>
        have hoperand := hchild operand (by simp [Expr.children])
        have hcandidates : FlatEach (.value (c.term qualifier candidates)) :=
          hchild candidates (by simp [Expr.children])
        refine ⟨fun n frame hframe => ?_, hempty⟩
        rw [term]
        exact flat_membership hoperand hcandidates n frame hframe
    | binary op left right =>
        have hleft := hchild left (by simp [Expr.children])
        have hright := hchild right (by simp [Expr.children])
        refine ⟨fun n frame hframe => ?_, hempty⟩
        rw [term]
        refine (hleft n frame hframe).bind fun _ ht => ?_
        exact (hright n frame hframe).bind fun _ hu => .pure (Nat.max_le.2 ⟨ht, hu⟩)
    | unary op operand =>
        have hoperand := hchild operand (by simp [Expr.children])
        refine ⟨fun n frame hframe => ?_, hempty⟩
        cases op <;>
        · rw [term]
          exact (hoperand n frame hframe).bind fun _ ht => .pure ht

theorem flat_keyTerm (c : Compiler) (qualifier : Option String) (key : Expr) :
    Flat 0 (c.keyTerm qualifier key none) := by
  have hterm : ∀ e, Flat 0 (c.term qualifier e none) := fun e => (c.flat_term qualifier e).1.alone
  unfold keyTerm
  split
  · exact Ensures.bind (hterm _) fun _ ht => .pure ht
  · exact hterm key

/-- The term of an expression in a context. -/
theorem flat_term_frame (c : Compiler) (context : Context) (e : Expr) :
    Flat (if context.window.isSome then 1 else 0)
      (c.term context.qualifier e (c.frame context)) := by
  refine (c.flat_term context.qualifier e).1 _ _ fun f hf => ?_
  obtain ⟨window, hwindow, rfl⟩ := Option.map_eq_some_iff.1 hf
  refine ⟨by simp [hwindow], .mapM fun key _ => ?_⟩
  exact c.flat_keyTerm context.qualifier key

end Compiler

end SqlChain
