import SqlChain.Proofs.Refusal.Compile
import SqlChain.Proofs.Window.Depth

/-!
# Expressions that need no window

The builder looks for calls over a window by a walk over the tree, and the compiler attaches windows
while it goes through the arguments of a call in its own ways. Where the walk finds nothing, the
compiler never looks at the window (`ignores_term`).
-/

namespace SqlChain

namespace CompileM

theorem mapM_congr {α β : Type} {f g : α → CompileM β} {as : List α} (h : ∀ a ∈ as, f a = g a) :
    as.mapM f = as.mapM g := by
  induction as with
  | nil => rfl
  | cons a as ih =>
      rw [List.mapM_cons, List.mapM_cons, h a List.mem_cons_self,
        ih fun x hx => h x (List.mem_cons_of_mem _ hx)]

end CompileM

namespace Compiler

open CompileM

variable {c : Compiler}

/-! ## Operands -/

/-- Compiled to the same with a window as without one, with the same warnings. -/
def Ignores (m : Compiled) : Prop := ∀ frame, m frame = m none

def IgnoresEach : Candidates → Prop
  | .each items => ∀ m ∈ items, Ignores m
  | .value m => Ignores m

structure IgnoresOperand (o : Operand) : Prop where
  value : Ignores o.value
  candidates : IgnoresEach o.candidates

theorem ignores_conditional {condition value : Compiled} {otherwise : Option Compiled}
    (hcondition : Ignores condition) (hvalue : Ignores value)
    (hotherwise : ∀ m ∈ otherwise, Ignores m) :
    Ignores (conditional condition value otherwise) := by
  intro frame
  rw [conditional, conditional, hcondition frame, hvalue frame]
  cases otherwise with
  | none => rfl
  | some m =>
      dsimp only
      rw [hotherwise m rfl frame]

theorem ignores_membership {operand : Compiled} {candidates : Candidates}
    (hoperand : Ignores operand) (hcandidates : IgnoresEach candidates) :
    Ignores (c.membership operand candidates) := by
  intro frame
  rw [membership, membership, hoperand frame]
  cases candidates with
  | each items =>
      have hitems : items.mapM (fun item => item frame) = items.mapM fun item => item none :=
        mapM_congr fun m hm => hcandidates m hm frame
      cases items with
      | nil => rfl
      | cons item items =>
          dsimp only
          rw [hitems]
  | value m =>
      dsimp only
      rw [hcandidates frame]

/-! ## Calls -/

section

variable {β : Type} {args : List (Arg Operand)}
  (hargs : ∀ arg ∈ args, IgnoresOperand arg.value) (frame : Option Frame)

include hargs

theorem argument_congr {function : String} {i : Nat} {f g : Operand → CompileM β}
    (hfg : ∀ o, IgnoresOperand o → f o = g o) :
    argument function args i >>= f = argument function args i >>= g :=
  Ensures.bind_congr (.argument hargs function i) hfg

/-- A call that goes on with the term of one of its arguments. -/
theorem term_argument_congr {function : String} {i : Nat} {f g : Term → CompileM β}
    (hfg : ∀ t, f t = g t) :
    (do f (← (← argument function args i).value frame)) =
      (do g (← (← argument function args i).value none)) :=
  argument_congr hargs fun o ho => by rw [ho.value frame, funext hfg]

theorem values_congr : values args frame = values args none :=
  mapM_congr fun arg harg => (hargs arg harg).value frame

theorem special_congr (c : Compiler) (qualifier : Option String) (function : String)
    {form : SpecialForm} (hform : (SqlForm.special form).isAggregate = false) :
    c.special qualifier function args frame form = c.special qualifier function args none form := by
  have hvalues := values_congr hargs frame
  cases form with
  | conditional =>
      refine Ensures.bind_congr (.attempt fun choice hchoice =>
        Choice.forall_of_ofArgs hargs hchoice) ?_
      rintro choice ⟨hcondition, hvalue, hotherwise⟩
      refine ignores_conditional hcondition.value hvalue.value (fun m hm => ?_) frame
      obtain ⟨o, ho, rfl⟩ := Option.map_eq_some_iff.1 hm
      exact (hotherwise o ho).value
  | isNull | length | cast => exact term_argument_congr hargs frame fun _ => rfl
  | between =>
      exact term_argument_congr hargs frame fun _ => term_argument_congr hargs frame fun _ =>
        term_argument_congr hargs frame fun _ => rfl
  | inSet =>
      exact argument_congr hargs fun _ hoperand => argument_congr hargs fun _ hitems =>
        ignores_membership hoperand.value hitems.candidates frame
  | nDistinct => cases hform
  | nullIf | pmin | pmax => rw [special, special, hvalues]
  | substr =>
      refine argument_congr hargs fun string hstring => ?_
      rw [hstring.value frame]
  | logBase =>
      exact term_argument_congr hargs frame fun _ => term_argument_congr hargs frame fun _ => rfl
  | concat separator => rw [special, special, hvalues]
  | descending => rfl

theorem writeAs_congr (c : Compiler) (qualifier : Option String) (function : String)
    {form : SqlForm} (hform : (form.isAggregate || form.isWindowOnly) = false) :
    c.writeAs qualifier function args frame form = c.writeAs qualifier function args none form := by
  cases form with
  | binary op =>
      exact term_argument_congr hargs frame fun _ => term_argument_congr hargs frame fun _ => rfl
  | unary op => cases op <;> exact term_argument_congr hargs frame fun _ => rfl
  | scalar sql => rw [writeAs, writeAs, values_congr hargs frame]
  | special form =>
      exact special_congr hargs frame c qualifier function (Bool.or_eq_false_iff.1 hform).1
  | aggregate | countStar | ranking | offset | cumulative | ntile => cases hform

theorem verbatim_congr (c : Compiler) (function : String) :
    c.verbatim function args frame = c.verbatim function args none := by
  unfold verbatim
  split
  · next op left right _ =>
      rw [(hargs left (by simp)).value frame, (hargs right (by simp)).value frame]
  · rw [values_congr hargs frame]

theorem call_congr (c : Compiler) (qualifier : Option String) (function : String)
    (hcall : c.isWindowCall function args.length false = false) :
    c.call qualifier function args frame = c.call qualifier function args none := by
  rw [isWindowCall, Bool.false_or, FunctionTable.form?] at hcall
  rw [call, call]
  cases hlookup : c.functions.lookup function args.length with
  | unknown => exact verbatim_congr hargs frame c function
  | wrongArity known => rfl
  | found entry =>
      rw [hlookup] at hcall
      dsimp only
      rw [writeAs_congr hargs frame c qualifier function hcall]

end

/-! ## Expressions -/

theorem ignoresOperand_of {qualifier : Option String} {e : Expr}
    (hterm : Ignores (c.term qualifier e))
    (hinner : ∀ arg ∈ c.operandsWithin qualifier e, IgnoresOperand arg.value) :
    IgnoresOperand (.of e (c.term qualifier e) (c.operandsWithin qualifier e)) where
  value := hterm
  candidates := by
    simp only [Operand.of]
    split
    · rw [IgnoresEach, List.forall_mem_map]
      exact fun arg harg => (hinner arg harg).value
    · exact List.forall_mem_singleton.2 hterm
    · exact hterm

theorem ignores_term (qualifier : Option String) (e : Expr) (hneed : c.needsWindow e = false) :
    Ignores (c.term qualifier e) ∧
      ∀ arg ∈ c.operandsWithin qualifier e, IgnoresOperand arg.value := by
  induction e using Expr.induct with
  | step e ih =>
    obtain ⟨hself, hchildren⟩ := Expr.any_eq_false hneed
    have hempty : ∀ arg ∈ ([] : List (Arg Operand)), IgnoresOperand arg.value := nofun
    have hchild : ∀ child ∈ e.children, Ignores (c.term qualifier child) :=
      fun child hchild => (ih child hchild (hchildren child hchild)).1
    cases e with
    | column | literal => exact ⟨fun _ => rfl, hempty⟩
    | call function args window =>
        have hargs : ∀ arg ∈ c.operands qualifier args, IgnoresOperand arg.value := by
          rw [operands_eq_map, List.forall_mem_map]
          intro arg harg
          have hmem : arg.value ∈ (Expr.call function args window).children :=
            List.mem_map_of_mem harg
          obtain ⟨hterm, hinner⟩ := ih arg.value hmem (hchildren arg.value hmem)
          exact ignoresOperand_of hterm hinner
        refine ⟨fun frame => ?_, hargs⟩
        rw [term, term]
        refine call_congr hargs frame c qualifier function ?_
        rw [isWindowExpr, isWindowCall, Bool.or_eq_false_iff] at hself
        rw [isWindowCall, Bool.false_or, operands_eq_map, List.length_map]
        exact hself.2
    | conditional condition value otherwise =>
        have hcondition := hchild condition (by simp [Expr.children])
        have hvalue := hchild value (by simp [Expr.children])
        refine ⟨fun frame => ?_, hempty⟩
        cases otherwise with
        | none =>
            rw [term, term]
            exact ignores_conditional hcondition hvalue (by simp) frame
        | some otherwise =>
            have hotherwise := hchild otherwise (by simp [Expr.children])
            rw [term, term]
            refine ignores_conditional hcondition hvalue ?_ frame
            rintro m ⟨⟩
            exact hotherwise
    | inList operand candidates =>
        have hoperand := hchild operand (by simp [Expr.children])
        have hcandidates : IgnoresEach (.each (candidates.map (c.term qualifier))) :=
          List.forall_mem_map.2 fun e he => hchild e (List.mem_cons_of_mem _ he)
        refine ⟨fun frame => ?_, hempty⟩
        rw [term, term, terms_eq_map]
        exact ignores_membership hoperand hcandidates frame
    | inExpr operand candidates =>
        have hoperand := hchild operand (by simp [Expr.children])
        have hcandidates : IgnoresEach (.value (c.term qualifier candidates)) :=
          hchild candidates (by simp [Expr.children])
        refine ⟨fun frame => ?_, hempty⟩
        rw [term, term]
        exact ignores_membership hoperand hcandidates frame
    | binary op left right =>
        have hleft := hchild left (by simp [Expr.children])
        have hright := hchild right (by simp [Expr.children])
        refine ⟨fun frame => ?_, hempty⟩
        rw [term, term, hleft frame, hright frame]
    | unary op operand =>
        have hoperand := hchild operand (by simp [Expr.children])
        refine ⟨fun frame => ?_, hempty⟩
        cases op <;> rw [term, term, hoperand frame]

/-- Where no window is needed, it makes no difference whether there is one. -/
theorem compile_eq_of_needsWindow_eq_false (w : Window) (qualifier : Option String) {e : Expr}
    (hneed : c.needsWindow e = false) :
    c.compile { window := some w, qualifier } e = c.compile { window := none, qualifier } e := by
  have hterm : c.term qualifier e (c.frame { window := some w, qualifier }) =
      c.term qualifier e (c.frame { window := none, qualifier }) :=
    (ignores_term qualifier e hneed).1 _
  rw [compile, compile, hterm]

/-! ## Windows that are found and windows that are written -/

/-- The term that a text is written from. -/
theorem exists_term_of_run_compile {context : Context} {e : Expr} {warnings later : List Warning}
    {sql : String} (hrun : (c.compile context e).run.run warnings = (.ok sql, later)) :
    ∃ t, (c.term context.qualifier e (c.frame context)).run.run warnings = (.ok t, later) ∧
      sql = t.text false := by
  rw [compile, run_bind] at hrun
  rcases hterm : (c.term context.qualifier e (c.frame context)).run.run warnings with
    ⟨answer, between⟩
  rw [hterm] at hrun
  cases answer with
  | error error => cases hrun
  | ok t =>
      cases hrun
      exact ⟨t, rfl, rfl⟩

/-- The compiler and the walk over the tree agree on windows. Where the walk finds nothing to put
over a window, the text, the error and the warnings are those without one. Where there is no window,
nothing is over a window only and nothing is put over one; where there is one, nothing that is over
a window only stands within a call over rows, and no window within another. -/
theorem compile_agrees_needsWindow (dialect : Dialect) (config : Config)
    (qualifier : Option String) (e : Expr) :
    let c := builtin dialect config
    (c.needsWindow e = false → ∀ w : Window,
      c.compile { window := some w, qualifier } e = c.compile { window := none, qualifier } e) ∧
    (∀ warnings sql later,
      (c.compile { window := none, qualifier } e).run.run warnings = (.ok sql, later) →
        e.any c.isWindowOnly = false ∧
        ∃ t, (c.term qualifier e none).run.run warnings = (.ok t, later) ∧ sql = t.text false ∧
          t.windowDepth = 0) ∧
    ∀ (w : Window) warnings sql later,
      (c.compile { window := some w, qualifier } e).run.run warnings = (.ok sql, later) →
        e.any c.nestsWindows = false ∧
        ∃ t, (c.term qualifier e (c.frame { window := some w, qualifier })).run.run warnings =
            (.ok t, later) ∧ sql = t.text false ∧ t.windowDepth ≤ 1 := by
  intro c
  have hgrants := grants_compile_allows (looksAtAll_builtin dialect config)
  refine ⟨fun hneed w => compile_eq_of_needsWindow_eq_false w qualifier hneed, ?_, ?_⟩
  · intro warnings sql later hrun
    have hallows := (hgrants { window := none, qualifier } e).ensures warnings sql later hrun
    obtain ⟨t, hterm, hsql⟩ := exists_term_of_run_compile hrun
    have hdepth := c.flat_term_frame { window := none, qualifier } e warnings t later hterm
    exact ⟨hallows.alone rfl, t, hterm, hsql, Nat.le_zero.1 hdepth⟩
  · intro w warnings sql later hrun
    have hallows := (hgrants { window := some w, qualifier } e).ensures warnings sql later hrun
    obtain ⟨t, hterm, hsql⟩ := exists_term_of_run_compile hrun
    have hdepth := c.flat_term_frame { window := some w, qualifier } e warnings t later hterm
    exact ⟨hallows.apart, t, hterm, hsql, hdepth⟩

/-- The rows of a group in descending order. -/
def sampleWindow : Window where
  partition := ["g"]
  order := [.plainCall "desc" [.column "x"]]

/-- A sum in proportion to a rank. -/
def sampleShare : Expr :=
  .binary .div (.plainCall "sum" [.column "x"])
    (.plainCall "rank" [.plainCall "desc" [.column "x"]])

theorem compile_agrees_needsWindow_sampleShare :
    (builtin .ansi .default).compile { window := some sampleWindow, qualifier := none }
        (.plainCall "%in%" [.column "x", .plainCall "c" [.column "y"]]) =
      (builtin .ansi .default).compile .scalar
        (.plainCall "%in%" [.column "x", .plainCall "c" [.column "y"]]) ∧
    (Expr.plainCall "sum" [.column "x"]).any (builtin .ansi .default).isWindowOnly = false ∧
    sampleShare.any (builtin .ansi .default).nestsWindows = false := by
  obtain ⟨hsame, -, -⟩ := compile_agrees_needsWindow .ansi .default none
    (.plainCall "%in%" [.column "x", .plainCall "c" [.column "y"]])
  obtain ⟨-, halone, -⟩ := compile_agrees_needsWindow .ansi .default none
    (.plainCall "sum" [.column "x"])
  obtain ⟨-, -, hover⟩ := compile_agrees_needsWindow .ansi .default none sampleShare
  have hsum : ((builtin .ansi .default).compile .scalar
      (.plainCall "sum" [.column "x"])).run.run [] = (.ok "SUM(\"x\")", []) := by rfl
  have hshare : ((builtin .ansi .default).compile
      { window := some sampleWindow, qualifier := none } sampleShare).run.run [] =
        (.ok ("SUM(\"x\") OVER (PARTITION BY \"g\") / " ++
          "RANK() OVER (PARTITION BY \"g\" ORDER BY \"x\" DESC)"), []) := by rfl
  refine ⟨hsame (by decide +kernel) sampleWindow, ?_, ?_⟩
  · exact (halone [] _ [] hsum).1
  · exact (hover sampleWindow [] _ [] hshare).1

end Compiler

end SqlChain
