import SqlChain.Proofs.Branches
import SqlChain.Proofs.Building
import SqlChain.Proofs.Syntax.Expression
import SqlChain.Query.Window

/-!
# Terms that are written

What the compiler makes of expressions is a language of its own: terms that are put together from
quoted names, literals and the words of the function table. Every expression compiles to one of them
(`ensures_term`), as long as functions that the table does not know are an error. The induction is
on the expression, and an operand is written if it is in every way in which a call may use it.
-/

namespace SqlChain

namespace SqlForm

/-- The words that a call of this form brings into the text. -/
def words : SqlForm → List String
  | .scalar sql | .aggregate sql | .ranking sql | .offset sql | .cumulative sql => [sql]
  | .special (.cast type) => [type]
  | _ => []

def isConcat : SqlForm → Bool
  | .special (.concat _) => true
  | _ => false

end SqlForm

/-- An argument that a call asks for is one of those that it has. -/
theorem CompileM.Ensures.argument {P : Operand → Prop} {args : List (Arg Operand)}
    (hargs : ∀ arg ∈ args, P arg.value) (function : String) (i : Nat) :
    (Compiler.argument function args i).Ensures P := by
  rw [Compiler.argument]
  split
  · next arg harg => exact .pure (hargs arg (List.mem_of_getElem? harg))
  · exact .throw _

/-! ## Terms -/

/-- Whether a window is put behind a term as behind a call with all its arguments. -/
def Term.isCall : Term → Bool
  | .apply _ _ | .countStar => true
  | _ => false

namespace Compiler

/-- The words that calls are written with. -/
def words (c : Compiler) : List String :=
  ["NULL_IF", "SUBSTR", "SUBSTRING", "MIN", "MAX", "LOG", "CONCAT", "NTILE",
    c.dialect.lengthFunction] ++ c.functions.entries.flatMap (·.form.words)

/-- Whether a concatenation may have no parts. -/
def ConcatsNothing (c : Compiler) : Prop :=
  ∃ entry ∈ c.functions.entries, entry.form.isConcat = true ∧ entry.arity.accepts 0 = true

def IsName (c : Compiler) (s : String) : Prop :=
  ∃ qualifier name, c.dialect.quoteQualified qualifier name = .ok s

/-- The terms that expressions compile to, with windows if there are any, and with windows behind
counts of distinct values if there are such. -/
inductive IsWritten (c : Compiler) (windows distinct : Prop) : Term → Prop where
  | column {s : String} (hs : c.IsName s) : IsWritten c windows distinct (.column s)
  | literal (value : Scalar) : IsWritten c windows distinct (c.literal value)
  | number (n : Int64) : IsWritten c windows distinct (.literal (toString n.toInt))
  | apply {w : String} {args : List Term} (hw : w ∈ c.words)
      (hargs : ∀ t ∈ args, IsWritten c windows distinct t) :
      IsWritten c windows distinct (.apply w args)
  | countStar : IsWritten c windows distinct .countStar
  | countDistinct {args : List Term} (hargs : ∀ t ∈ args, IsWritten c windows distinct t) :
      IsWritten c windows distinct (.countDistinct args)
  | substringFor {string : Term} (start length : Int64)
      (hstring : IsWritten c windows distinct string) :
      IsWritten c windows distinct (.substringFor string start length)
  | cast {operand : Term} {type : String} (hoperand : IsWritten c windows distinct operand)
      (htype : type ∈ c.words) : IsWritten c windows distinct (.cast operand type)
  | conditional {condition value : Term} {otherwise : Option Term}
      (hcondition : IsWritten c windows distinct condition)
      (hvalue : IsWritten c windows distinct value)
      (hotherwise : ∀ t ∈ otherwise, IsWritten c windows distinct t) :
      IsWritten c windows distinct (.conditional condition value otherwise)
  | negate {operand : Term} (hoperand : IsWritten c windows distinct operand) :
      IsWritten c windows distinct (.negate operand)
  | not {operand : Term} (hoperand : IsWritten c windows distinct operand) :
      IsWritten c windows distinct (.not operand)
  | isNull {operand : Term} (hoperand : IsWritten c windows distinct operand) :
      IsWritten c windows distinct (.isNull operand)
  | binary (op : BinaryOp) {left right : Term} (hleft : IsWritten c windows distinct left)
      (hright : IsWritten c windows distinct right) :
      IsWritten c windows distinct (.binary op.sql left right)
  | between {operand low high : Term} (hoperand : IsWritten c windows distinct operand)
      (hlow : IsWritten c windows distinct low) (hhigh : IsWritten c windows distinct high) :
      IsWritten c windows distinct (.between operand low high)
  | inList {operand : Term} {items : List Term} (hoperand : IsWritten c windows distinct operand)
      (hitems : ∀ t ∈ items, IsWritten c windows distinct t) :
      IsWritten c windows distinct (.inList operand items)
  | inTerm {operand items : Term} (hoperand : IsWritten c windows distinct operand)
      (hitems : IsWritten c windows distinct items) :
      IsWritten c windows distinct (.inTerm operand items)
  | concat {parts : List Term} (hsome : parts = [] → c.ConcatsNothing)
      (hparts : ∀ t ∈ parts, IsWritten c windows distinct t) :
      IsWritten c windows distinct (.concat parts)
  | windowed {body : Term} {partition : List String} {order : List Term} (running : Bool)
      (hwindows : windows) (hcall : body.isCall = true ∨ distinct)
      (hbody : IsWritten c windows distinct body) (hpartition : ∀ s ∈ partition, c.IsName s)
      (horder : ∀ t ∈ order, IsWritten c windows distinct t) :
      IsWritten c windows distinct (.windowed body partition order running)
  | descending {key : Term} (hkey : IsWritten c windows distinct key) :
      IsWritten c windows distinct (.descending key)

end Compiler

namespace Written

variable {c : Compiler} {windows distinct : Prop}

abbrev Writes (c : Compiler) (windows distinct : Prop) (m : CompileM Term) : Prop :=
  m.Ensures (c.IsWritten windows distinct)

abbrev WritesAll (c : Compiler) (windows distinct : Prop) (m : CompileM (List Term)) : Prop :=
  m.Ensures fun ts => ∀ t ∈ ts, c.IsWritten windows distinct t

/-- What is needed of a window for an expression to be compiled with it. -/
structure MayFrame (c : Compiler) (windows distinct : Prop) (e : Expr) (f : Frame) : Prop where
  allowed : windows
  counts : c.needsJoin e = true → distinct
  order : WritesAll c windows distinct f.order

def CompiledWritten (c : Compiler) (windows distinct : Prop) (e : Expr) (m : Compiled) : Prop :=
  ∀ frame, (∀ f ∈ frame, MayFrame c windows distinct e f) → Writes c windows distinct (m frame)

inductive CandidatesWritten (c : Compiler) (windows distinct : Prop) (e : Expr) :
    Candidates → Prop where
  | each {items : List Compiled} (h : ∀ item ∈ items, CompiledWritten c windows distinct e item) :
      CandidatesWritten c windows distinct e (.each items)
  | value {items : Compiled} (h : CompiledWritten c windows distinct e items) :
      CandidatesWritten c windows distinct e (.value items)

structure OperandWritten (c : Compiler) (windows distinct : Prop) (o : Operand) : Prop where
  value : CompiledWritten c windows distinct o.expr o.value
  key : Writes c windows distinct o.key
  candidates : CandidatesWritten c windows distinct o.expr o.candidates

theorem MayFrame.child {e child : Expr} {f : Frame} (h : MayFrame c windows distinct e f)
    (hchild : child ∈ e.children) : MayFrame c windows distinct child f where
  allowed := h.allowed
  counts := by
    intro hjoin
    refine h.counts ?_
    by_contra hnone
    have hchildren := (Expr.any_eq_false (by simpa [Compiler.needsJoin] using hnone)).2 child hchild
    rw [Compiler.needsJoin, hchildren] at hjoin
    cases hjoin
  order := h.order

theorem CompiledWritten.alone {e : Expr} {m : Compiled}
    (h : CompiledWritten c windows distinct e m) :
    Writes c windows distinct (m none) :=
  h none (by simp)

theorem CompiledWritten.of_child {e child : Expr} {m : Compiled}
    (h : CompiledWritten c windows distinct child m) (hchild : child ∈ e.children) :
    CompiledWritten c windows distinct e m :=
  fun frame hframe => h frame fun f hf => (hframe f hf).child hchild

/-! ## Windows -/

theorem writes_withWindow (qualifier : Option String) (frame : Frame) (hwindows : windows)
    {body : Term} (hcall : body.isCall = true ∨ distinct)
    (hbody : c.IsWritten windows distinct body) {order : CompileM (List Term)}
    (horder : WritesAll c windows distinct order) (running : Bool) :
    Writes c windows distinct (c.withWindow qualifier frame body order running) := by
  have hcolumn : ∀ name ∈ frame.partition, (c.column qualifier name).Ensures c.IsName :=
    fun name _ => .attempt fun _ hquoted => ⟨qualifier, name, hquoted⟩
  refine (CompileM.Ensures.mapM_forall hcolumn).bind fun partition hpartition => ?_
  refine horder.bind fun keys hkeys => ?_
  exact .pure (.windowed running hwindows hcall hbody hpartition hkeys)

theorem writes_withWindowIfAllowed (qualifier : Option String) {frame : Option Frame} {body : Term}
    (hframe : ∀ f ∈ frame, windows ∧ (body.isCall = true ∨ distinct))
    (hbody : c.IsWritten windows distinct body) :
    Writes c windows distinct (c.withWindowIfAllowed qualifier frame body) := by
  cases frame with
  | none => exact .pure hbody
  | some f =>
      obtain ⟨hwindows, hcall⟩ := hframe f rfl
      exact writes_withWindow qualifier f hwindows hcall hbody (.pure (by simp)) false

theorem writesAll_key {key : CompileM Term} (h : Writes c windows distinct key) :
    WritesAll c windows distinct (do return [← key]) :=
  h.bind fun _ ht => .pure (List.forall_mem_singleton.2 ht)

/-! ## Arguments -/

section

variable {args : List (Arg Operand)}
  (hargs : ∀ arg ∈ args, OperandWritten c windows distinct arg.value) {frame : Option Frame}
  (hframes : ∀ arg ∈ args, ∀ f ∈ frame, MayFrame c windows distinct arg.value.expr f)

include hargs hframes

theorem ensures_argument (function : String) (i : Nat) :
    (Compiler.argument function args i).Ensures fun o => OperandWritten c windows distinct o ∧
      ∀ f ∈ frame, MayFrame c windows distinct o.expr f :=
  .argument (fun arg harg => ⟨hargs arg harg, hframes arg harg⟩) function i

/-- A call that goes on with the term of one of its arguments. -/
theorem writes_argument_bind (function : String) (i : Nat) {rest : Term → CompileM Term}
    (hrest : ∀ t, c.IsWritten windows distinct t → Writes c windows distinct (rest t)) :
    Writes c windows distinct (do
      let operand ← Compiler.argument function args i
      let t ← operand.value frame
      rest t) :=
  (ensures_argument hargs hframes function i).bind fun _ ho => (ho.1.value frame ho.2).bind hrest

theorem writesAll_values : WritesAll c windows distinct (Compiler.values args frame) :=
  .mapM_forall fun arg harg => (hargs arg harg).value frame (hframes arg harg)

omit hframes in
theorem writesAll_values_none : WritesAll c windows distinct (Compiler.values args none) :=
  writesAll_values hargs (by simp)

end

/-! ## Calls -/

theorem writes_conditional {condition value : Compiled} {otherwise : Option Compiled}
    {frame : Option Frame} (hcondition : Writes c windows distinct (condition frame))
    (hvalue : Writes c windows distinct (value frame))
    (hotherwise : ∀ m ∈ otherwise, Writes c windows distinct (m frame)) :
    Writes c windows distinct (Compiler.conditional condition value otherwise frame) := by
  refine hcondition.bind fun t ht => hvalue.bind fun u hu => ?_
  cases otherwise with
  | none => exact .pure (.conditional ht hu (by simp))
  | some otherwise =>
      refine (hotherwise otherwise rfl).bind fun v hv => .pure (.conditional ht hu ?_)
      rintro _ ⟨⟩
      exact hv

theorem writes_membership {operand : Compiled} {frame : Option Frame}
    (hoperand : Writes c windows distinct (operand frame)) {e : Expr} {candidates : Candidates}
    (hcandidates : CandidatesWritten c windows distinct e candidates)
    (hframe : ∀ f ∈ frame, MayFrame c windows distinct e f) :
    Writes c windows distinct (c.membership operand candidates frame) := by
  refine hoperand.bind fun t ht => ?_
  cases hcandidates with
  | @each items hitems =>
      cases items with
      | nil => exact .pure (.literal _)
      | cons item items =>
          have hmapped : WritesAll c windows distinct
              ((item :: items).mapM fun item => item frame) :=
            .mapM_forall fun item hitem => hitems item hitem frame hframe
          exact CompileM.Ensures.bind hmapped fun us hus => .pure (.inList ht hus)
  | value hitems => exact (hitems frame hframe).bind fun u hu => .pure (.inTerm ht hu)

theorem isWritten_apply_one {w : String} (hw : w ∈ c.words) {t : Term}
    (ht : c.IsWritten windows distinct t) : c.IsWritten windows distinct (.apply w [t]) :=
  .apply hw (List.forall_mem_singleton.2 ht)

theorem isWritten_substring {string : Term} (hstring : c.IsWritten windows distinct string)
    (start length : Int64) : c.IsWritten windows distinct (c.substring string start length) := by
  have hargs : ∀ t ∈ [string, .literal (toString start.toInt), .literal (toString length.toInt)],
      c.IsWritten windows distinct t := by
    simp only [List.mem_cons, List.not_mem_nil, or_false, forall_eq_or_imp, forall_eq]
    exact ⟨hstring, .number start, .number length⟩
  rw [Compiler.substring]
  split
  · exact .apply (by simp [Compiler.words]) hargs
  · exact .apply (by simp [Compiler.words]) hargs
  · exact .substringFor start length hstring

theorem forall_mem_separated {P : Term → Prop} {separator : Option Term}
    (hseparator : ∀ t ∈ separator, P t) {parts : List Term} (hparts : ∀ t ∈ parts, P t) :
    ∀ t ∈ Compiler.separated separator parts, P t := by
  cases separator with
  | none => exact hparts
  | some separator =>
      have hs := hseparator separator rfl
      intro t ht
      rw [Compiler.separated] at ht
      fun_induction List.intersperse separator parts with
      | case1 => cases ht
      | case2 part => exact hparts t ht
      | case3 part next rest ih =>
          rcases List.mem_cons.1 ht with rfl | ht
          · exact hparts _ (by simp)
          · rcases List.mem_cons.1 ht with rfl | ht
            · exact hs
            · exact ih (fun u hu => hparts u (List.mem_cons_of_mem _ hu)) ht

theorem separated_eq_nil {separator : Option Term} {parts : List Term}
    (h : Compiler.separated separator parts = []) : parts = [] := by
  cases separator with
  | none => exact h
  | some separator =>
      cases parts with
      | nil => rfl
      | cons part rest => cases rest <;> cases h

section

variable {args : List (Arg Operand)}
  (hargs : ∀ arg ∈ args, OperandWritten c windows distinct arg.value) {frame : Option Frame}
  (hframes : ∀ arg ∈ args, ∀ f ∈ frame, MayFrame c windows distinct arg.value.expr f)

include hargs hframes

theorem writes_special (qualifier : Option String) (function : String) {form : SpecialForm}
    (hwords : ∀ w ∈ (SqlForm.special form).words, w ∈ c.words)
    (hconcat : (SqlForm.special form).isConcat = true → args = [] → c.ConcatsNothing)
    (hdistinct : form = .nDistinct → ∀ f ∈ frame, windows ∧ distinct) :
    Writes c windows distinct (c.special qualifier function args frame form) := by
  have hvalues := writesAll_values hargs hframes
  have argument := @writes_argument_bind c windows distinct args hargs frame hframes function
  cases form with
  | conditional =>
      refine CompileM.Ensures.bind (.attempt fun choice hchoice =>
        Choice.forall_of_ofArgs (P := fun o : Operand => Writes c windows distinct (o.value frame))
          (fun arg harg => (hargs arg harg).value frame (hframes arg harg)) hchoice) ?_
      rintro choice ⟨hcondition, hvalue, hotherwise⟩
      refine writes_conditional hcondition hvalue fun m hm => ?_
      obtain ⟨o, ho, rfl⟩ := Option.map_eq_some_iff.1 hm
      exact hotherwise o ho
  | isNull => exact argument 0 fun t ht => .pure (.isNull ht)
  | between =>
      refine argument 0 fun t ht => argument 1 fun u hu => argument 2 fun v hv => ?_
      exact .pure (.between ht hu hv)
  | inSet =>
      refine (ensures_argument hargs hframes function 0).bind fun operand hoperand => ?_
      refine (ensures_argument hargs hframes function 1).bind fun items hitems => ?_
      exact writes_membership (hoperand.1.value frame hoperand.2) hitems.1.candidates hitems.2
  | nDistinct =>
      refine (writesAll_values_none hargs).bind fun ts hts => ?_
      refine writes_withWindowIfAllowed qualifier (fun f hf => ?_) (.countDistinct hts)
      exact (hdistinct rfl f hf).imp_right .inr
  | nullIf => exact hvalues.bind fun ts hts => .pure (.apply (by simp [Compiler.words]) hts)
  | substr =>
      refine (ensures_argument hargs hframes function 0).bind fun string hstring => ?_
      refine .bind_any fun _ => .bind_any fun start => .bind_any fun _ => .bind_any fun stop => ?_
      refine (hstring.1.value frame hstring.2).bind fun t ht => ?_
      exact .pure (isWritten_substring ht _ _)
  | pmin => exact hvalues.bind fun ts hts => .pure (.apply (by simp [Compiler.words]) hts)
  | pmax => exact hvalues.bind fun ts hts => .pure (.apply (by simp [Compiler.words]) hts)
  | logBase =>
      refine argument 0 fun t ht => argument 1 fun u hu => ?_
      have hlog : "LOG" ∈ c.words := by simp [Compiler.words]
      exact .pure (.binary .div (isWritten_apply_one hlog ht) (isWritten_apply_one hlog hu))
  | length =>
      exact argument 0 fun t ht => .pure (isWritten_apply_one (by simp [Compiler.words]) ht)
  | concat separator =>
      have hlength := CompileM.Ensures.length_mapM
        (fun arg : Arg Operand => arg.value.value frame) args
      refine CompileM.Ensures.bind (CompileM.Ensures.and hvalues hlength) ?_
      rintro ts ⟨hts, hlength⟩
      have hparts : ∀ t ∈ Compiler.separated (separator.map fun s => c.literal (.utf8 s)) ts,
          c.IsWritten windows distinct t := by
        refine forall_mem_separated (fun t ht => ?_) hts
        obtain ⟨s, _, rfl⟩ := Option.map_eq_some_iff.1 ht
        exact .literal _
      dsimp only
      split
      · exact .pure (.apply (by simp [Compiler.words]) hparts)
      · refine .pure (.concat (fun hnone => hconcat rfl ?_) hparts)
        rw [separated_eq_nil hnone] at hlength
        exact List.eq_nil_of_length_eq_zero hlength.symm
  | cast type =>
      exact argument 0 fun t ht => .pure (.cast ht (hwords type (by simp [SqlForm.words])))
  | descending => exact .throw _

theorem writes_writeAs (qualifier : Option String) (function : String) {form : SqlForm}
    (hwords : ∀ w ∈ form.words, w ∈ c.words)
    (hconcat : form.isConcat = true → args = [] → c.ConcatsNothing)
    (hframe : ∀ f ∈ frame, windows ∧ WritesAll c windows distinct f.order)
    (hdistinct : form = .special .nDistinct → ∀ f ∈ frame, distinct) :
    Writes c windows distinct (c.writeAs qualifier function args frame form) := by
  have hvalues := writesAll_values hargs hframes
  have hscalars := writesAll_values_none hargs
  have argument := @writes_argument_bind c windows distinct args hargs frame hframes function
  have hwindow : (Compiler.requireWindow function frame).Ensures fun f =>
      windows ∧ WritesAll c windows distinct f.order := by
    cases frame with
    | none => exact .throw _
    | some f => exact .pure (hframe f rfl)
  cases form with
  | binary op => exact argument 0 fun t ht => argument 1 fun u hu => .pure (.binary op ht hu)
  | unary op =>
      cases op with
      | not => exact argument 0 fun t ht => .pure (.not ht)
      | negate => exact argument 0 fun t ht => .pure (.negate ht)
  | scalar sql =>
      exact hvalues.bind fun ts hts => .pure (.apply (hwords sql (by simp [SqlForm.words])) hts)
  | aggregate sql =>
      refine hscalars.bind fun ts hts => ?_
      exact writes_withWindowIfAllowed qualifier (fun f hf => ⟨(hframe f hf).1, .inl rfl⟩)
        (.apply (hwords sql (by simp [SqlForm.words])) hts)
  | countStar =>
      exact writes_withWindowIfAllowed qualifier (fun f hf => ⟨(hframe f hf).1, .inl rfl⟩)
        .countStar
  | ranking sql =>
      refine hwindow.bind fun f hf => ?_
      have hbody : c.IsWritten windows distinct (.apply sql []) :=
        .apply (hwords sql (by simp [SqlForm.words])) (by simp)
      cases args with
      | nil => exact writes_withWindow qualifier f hf.1 (.inl rfl) hbody hf.2 false
      | cons arg args =>
          have hkey := writesAll_key (hargs arg (by simp)).key
          exact writes_withWindow qualifier f hf.1 (.inl rfl) hbody hkey false
  | offset sql =>
      refine hwindow.bind fun f hf => hscalars.bind fun ts hts => ?_
      exact writes_withWindow qualifier f hf.1 (.inl rfl)
        (.apply (hwords sql (by simp [SqlForm.words])) hts) hf.2 false
  | cumulative sql =>
      refine hwindow.bind fun f hf => hscalars.bind fun ts hts => ?_
      exact writes_withWindow qualifier f hf.1 (.inl rfl)
        (.apply (hwords sql (by simp [SqlForm.words])) hts) hf.2 true
  | ntile =>
      refine hwindow.bind fun f hf => ?_
      refine (ensures_argument hargs hframes function 0).bind fun key hkey => ?_
      refine (ensures_argument hargs hframes function 1).bind fun buckets hbuckets => ?_
      refine hbuckets.1.value.alone.bind fun t ht => ?_
      exact writes_withWindow qualifier f hf.1 (.inl rfl)
        (isWritten_apply_one (by simp [Compiler.words]) ht) (writesAll_key hkey.1.key) false
  | special form =>
      exact writes_special hargs hframes qualifier function hwords hconcat
        fun hform f hf => ⟨(hframe f hf).1, hdistinct (by rw [hform]) f hf⟩

theorem writes_call (hstrict : c.config.strictSql = true) (qualifier : Option String)
    (function : String) (hframe : ∀ f ∈ frame, windows ∧ WritesAll c windows distinct f.order)
    (hdistinct : c.functions.form? function args.length = some (.special .nDistinct) →
      ∀ f ∈ frame, distinct) :
    Writes c windows distinct (c.call qualifier function args frame) := by
  rw [Compiler.call]
  split
  · unfold Compiler.verbatim
    rw [if_pos hstrict]
    exact CompileM.Ensures.bind (.throw _) fun _ (hfalse : False) => hfalse.elim
  · exact .throw _
  · next entry hentry =>
      obtain ⟨hmem, _, haccepts⟩ := FunctionTable.name_eq_of_lookup_found hentry
      have hwords : ∀ w ∈ entry.form.words, w ∈ c.words := fun w hw =>
        List.mem_append_right _ (List.mem_flatMap.2 ⟨entry, hmem, hw⟩)
      have hwrite : Writes c windows distinct
          (c.writeAs qualifier function args frame entry.form) := by
        refine writes_writeAs hargs hframes qualifier function hwords ?_ hframe fun hform => ?_
        · rintro hform rfl
          exact ⟨entry, hmem, hform, haccepts⟩
        · exact hdistinct (by simp [FunctionTable.form?, hentry, hform])
      split
      · exact .bind_any fun _ => hwrite
      · exact hwrite

end

/-! ## Expressions -/

theorem operandWritten_of {e : Expr} {m : Compiled} (hm : CompiledWritten c windows distinct e m)
    {inner : List (Arg Operand)}
    (hinner : ∀ arg ∈ inner, OperandWritten c windows distinct arg.value ∧
      arg.value.expr ∈ e.children) : OperandWritten c windows distinct (.of e m inner) where
  value := hm
  key := by
    simp only [Operand.of]
    split
    · next arg =>
        have harg := (hinner arg (by simp)).1.value.alone
        exact CompileM.Ensures.bind harg fun t ht => .pure (.descending ht)
    · exact hm.alone
  candidates := by
    simp only [Operand.of]
    split
    · refine .each fun item hitem => ?_
      obtain ⟨arg, harg, rfl⟩ := List.mem_map.1 hitem
      exact (hinner arg harg).1.value.of_child (hinner arg harg).2
    · exact .each (List.forall_mem_singleton.2 hm)
    · exact .value hm

theorem compiledWritten_term (hstrict : c.config.strictSql = true) (qualifier : Option String)
    (e : Expr) : CompiledWritten c windows distinct e (c.term qualifier e) ∧
      ∀ arg ∈ c.operandsWithin qualifier e, OperandWritten c windows distinct arg.value ∧
        arg.value.expr ∈ e.children := by
  induction e using Expr.induct with
  | step e ih =>
    have hempty : ∀ arg ∈ ([] : List (Arg Operand)), OperandWritten c windows distinct arg.value ∧
        arg.value.expr ∈ e.children := by simp
    have hchild : ∀ child ∈ e.children, ∀ frame, (∀ f ∈ frame, MayFrame c windows distinct e f) →
        Writes c windows distinct (c.term qualifier child frame) :=
      fun child hchild frame hframe => (ih child hchild).1.of_child hchild frame hframe
    cases e with
    | column name =>
        refine ⟨fun frame _ => ?_, hempty⟩
        rw [Compiler.term]
        have hname : (c.column qualifier name).Ensures c.IsName :=
          .attempt fun _ hquoted => ⟨qualifier, name, hquoted⟩
        exact hname.bind fun quoted hquoted => .pure (.column hquoted)
    | literal value =>
        refine ⟨fun frame _ => ?_, hempty⟩
        rw [Compiler.term]
        exact .pure (.literal value)
    | call function args window =>
        have hargs : ∀ o ∈ c.operands qualifier args, OperandWritten c windows distinct o.value ∧
            o.value.expr ∈ (Expr.call function args window).children := by
          intro o ho
          rw [Compiler.operands_eq_map] at ho
          obtain ⟨arg, harg, rfl⟩ := List.mem_map.1 ho
          have hmem : arg.value ∈ (Expr.call function args window).children :=
            List.mem_map_of_mem harg
          obtain ⟨hterm, hwithin⟩ := ih arg.value hmem
          exact ⟨operandWritten_of hterm hwithin, hmem⟩
        refine ⟨fun frame hframe => ?_, hargs⟩
        rw [Compiler.term]
        refine writes_call (fun o ho => (hargs o ho).1)
          (fun o ho f hf => (hframe f hf).child (hargs o ho).2) hstrict qualifier function
          (fun f hf => ⟨(hframe f hf).allowed, (hframe f hf).order⟩) fun hform f hf => ?_
        refine (hframe f hf).counts ?_
        rw [Compiler.operands_eq_map, List.length_map] at hform
        simp [Compiler.needsJoin, Expr.any, Compiler.isJoinOnly, hform]
    | conditional condition value otherwise =>
        refine ⟨fun frame hframe => ?_, hempty⟩
        have hcondition := hchild condition (by simp [Expr.children]) frame hframe
        have hvalue := hchild value (by simp [Expr.children]) frame hframe
        cases otherwise with
        | none =>
            rw [Compiler.term]
            exact writes_conditional hcondition hvalue (by simp)
        | some otherwise =>
            have hotherwise := hchild otherwise (by simp [Expr.children]) frame hframe
            rw [Compiler.term]
            refine writes_conditional hcondition hvalue ?_
            rintro _ ⟨⟩
            exact hotherwise
    | inList operand candidates =>
        refine ⟨fun frame hframe => ?_, hempty⟩
        have hoperand := hchild operand (by simp [Expr.children]) frame hframe
        rw [Compiler.term, Compiler.terms_eq_map]
        refine writes_membership hoperand (.each fun item hitem => ?_) hframe
        obtain ⟨e, he, rfl⟩ := List.mem_map.1 hitem
        have hmem : e ∈ (Expr.inList operand candidates).children := List.mem_cons_of_mem _ he
        exact (ih e hmem).1.of_child hmem
    | inExpr operand candidates =>
        refine ⟨fun frame hframe => ?_, hempty⟩
        have hoperand := hchild operand (by simp [Expr.children]) frame hframe
        have hmem : candidates ∈ (Expr.inExpr operand candidates).children := by
          simp [Expr.children]
        rw [Compiler.term]
        exact writes_membership hoperand (.value ((ih candidates hmem).1.of_child hmem)) hframe
    | binary op left right =>
        refine ⟨fun frame hframe => ?_, hempty⟩
        have hleft := hchild left (by simp [Expr.children]) frame hframe
        have hright := hchild right (by simp [Expr.children]) frame hframe
        rw [Compiler.term]
        exact hleft.bind fun t ht => hright.bind fun u hu => .pure (.binary op ht hu)
    | unary op operand =>
        refine ⟨fun frame hframe => ?_, hempty⟩
        have hoperand := hchild operand (by simp [Expr.children]) frame hframe
        cases op with
        | not =>
            rw [Compiler.term]
            exact hoperand.bind fun t ht => .pure (.not ht)
        | negate =>
            rw [Compiler.term]
            exact hoperand.bind fun t ht => .pure (.negate ht)

/-! ## Keys and frames -/

theorem writes_keyTerm (hstrict : c.config.strictSql = true) (qualifier : Option String)
    (key : Expr) {frame : Option Frame}
    (hframe : ∀ f ∈ frame, MayFrame c windows distinct key f) :
    Writes c windows distinct (c.keyTerm qualifier key frame) := by
  rw [Compiler.keyTerm]
  split
  · next operand hoperand =>
      have hchild : operand ∈ key.children := by
        unfold Expr.descending? at hoperand
        split at hoperand
        · cases hoperand
          simp [Expr.children]
        · cases hoperand
      have hterm : Writes c windows distinct (c.term qualifier operand frame) :=
        (compiledWritten_term hstrict qualifier operand).1.of_child hchild frame hframe
      exact CompileM.Ensures.bind hterm fun t ht => .pure (.descending ht)
  · exact (compiledWritten_term hstrict qualifier key).1 frame hframe

theorem mayFrame_frame (hstrict : c.config.strictSql = true) {context : Context} {e : Expr}
    (hwindows : context.window.isSome = true → windows)
    (hdistinct : context.window.isSome = true → c.needsJoin e = true → distinct) :
    ∀ f ∈ c.frame context, MayFrame c windows distinct e f := by
  intro f hf
  obtain ⟨window, hwindow, rfl⟩ := Option.map_eq_some_iff.1 hf
  have hsome : context.window.isSome = true := by rw [hwindow]; rfl
  refine ⟨hwindows hsome, hdistinct hsome, .mapM_forall fun key _ => ?_⟩
  exact writes_keyTerm hstrict context.qualifier key (by simp)

/-- Every expression compiles to a term that is written. -/
theorem ensures_term (hstrict : c.config.strictSql = true) (context : Context) (e : Expr)
    (hwindows : context.window.isSome = true → windows)
    (hdistinct : context.window.isSome = true → c.needsJoin e = true → distinct) :
    Writes c windows distinct (c.term context.qualifier e (c.frame context)) :=
  (compiledWritten_term hstrict context.qualifier e).1 _
    (mayFrame_frame hstrict hwindows hdistinct)

theorem ensures_keyTerm (hstrict : c.config.strictSql = true) (context : Context) (key : Expr)
    (hwindows : context.window.isSome = true → windows)
    (hdistinct : context.window.isSome = true → c.needsJoin key = true → distinct) :
    Writes c windows distinct (c.keyTerm context.qualifier key (c.frame context)) :=
  writes_keyTerm hstrict context.qualifier key (mayFrame_frame hstrict hwindows hdistinct)

end Written

end SqlChain
