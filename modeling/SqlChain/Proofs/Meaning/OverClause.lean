import SqlChain.Proofs.Meaning.Over

/-!
# Texts of windows

The text of a call over a window says which rows the call sees and in which order: those that
`SqlForm.over?` gives (`ensures_overCall`).
-/

namespace SqlChain

variable {c : Compiler}

/-- What stands behind a call that is evaluated over a window. -/
def overClause : List String → List String → Bool → String
  | [], [], _ => " OVER ()"
  | [], keys, running =>
    " OVER (ORDER BY " ++ Term.listed keys ++
      (if running then " ROWS UNBOUNDED PRECEDING" else "") ++ ")"
  | partition, [], _ => " OVER (PARTITION BY " ++ Term.listed partition ++ ")"
  | partition, keys, running =>
    " OVER (PARTITION BY " ++ Term.listed partition ++ " ORDER BY " ++ Term.listed keys ++
      (if running then " ROWS UNBOUNDED PRECEDING" else "") ++ ")"

/-- Every expression is compiled to the text in its place, without a window. -/
def AreCompiled (compile : Expr → CompileM String) : List Expr → List String → Prop :=
  List.Forall₂ fun e text => ∃ warnings later, (compile e).run.run warnings = (.ok text, later)

/-- The function that a call over a window is written with, if its arguments stand behind it. -/
def SqlForm.overFunction? : SqlForm → Option String
  | .aggregate sql | .ranking sql | .offset sql | .cumulative sql => some sql
  | .ntile => some "NTILE"
  | _ => none

/-- A call as it stands in front of `OVER`, given its arguments. -/
inductive IsCalled (c : Compiler) : SqlForm → List Expr → String → Prop
  | function {form : SqlForm} {sql : String} {args : List Expr} {texts : List String}
      (hform : form.overFunction? = some sql)
      (hargs : AreCompiled (c.compile .scalar) args texts) :
      IsCalled c form args (sql ++ "(" ++ Term.listed texts ++ ")")
  | countStar (args : List Expr) : IsCalled c .countStar args "COUNT(*)"
  | countDistinct {args : List Expr} {texts : List String}
      (hargs : AreCompiled (c.compile .scalar) args texts) :
      IsCalled c (.special .nDistinct) args ("COUNT(DISTINCT " ++ Term.listed texts ++ ")")

/-- The text has the call over the rows that it sees. -/
def OverCall.IsWritten (c : Compiler) (form : SqlForm) (call : OverCall) (text : String) : Prop :=
  ∃ called partition keys, IsCalled c form (call.args.map Arg.value) called ∧
    List.Forall₂ (fun name text => c.dialect.quoteIdentifier name = .ok text) call.partition
      partition ∧
    AreCompiled (c.compileKey .scalar) call.order keys ∧
    text = called ++ overClause partition keys call.running

theorem text_windowed (body : Term) (partition : List String) (order : List Term)
    (running : Bool) :
    (Term.windowed body partition order running).text false =
      body.text false ++ overClause partition (order.map (Term.text true)) running := by
  have horder : ∀ s : String, s ++ " " ++ "ORDER BY " = s ++ " ORDER BY " := by
    intro s
    rw [String.append_assoc]
    rfl
  have hrows : ∀ s : String,
      s ++ " " ++ "ROWS UNBOUNDED PRECEDING" = s ++ " ROWS UNBOUNDED PRECEDING" := by
    intro s
    rw [String.append_assoc]
    rfl
  rw [Term.text, Term.texts_eq_map, String.append_assoc]
  congr 1
  generalize order.map (Term.text true) = keys
  cases partition <;> cases keys <;> cases running <;>
    simp [overClause, Term.partitionClause, Term.orderClause, Term.parenthesised,
      ← String.append_assoc, horder, hrows]

namespace Compiler

theorem key_of (c : Compiler) (qualifier : Option String) (e : Expr) :
    (Operand.of e (c.term qualifier e) (c.operandsWithin qualifier e)).key =
      c.keyTerm qualifier e none := by
  rw [keyTerm]
  fun_cases Expr.descending? e with
  | case1 arg window => rfl
  | case2 e h =>
      simp only [Operand.of]
      split
      · next args window arg hargs =>
          rw [operandsWithin, operands_eq_map, List.map_eq_singleton_iff] at hargs
          obtain ⟨x, rfl, _⟩ := hargs
          exact (h x window rfl).elim
      · rfl

end Compiler

/-! ## Compiled calls -/

namespace CompileM

variable {α β : Type}

theorem run_return {m : CompileM α} {warnings later : List Warning} {a : α} (f : α → β)
    (h : m.run.run warnings = (.ok a, later)) :
    (do return f (← m) : CompileM β).run.run warnings = (.ok (f a), later) := by
  rw [run_bind, h]
  rfl

/-- The texts of compiled terms are those that their expressions compile to. -/
theorem ensures_mapM_run {γ : Type} {f : γ → CompileM α} {g : γ → CompileM β} {text : α → β}
    {xs : List γ} (hg : ∀ x ∈ xs, g x = do return text (← f x)) :
    (xs.mapM f).Ensures fun as => List.Forall₂
      (fun x b => ∃ warnings later, (g x).run.run warnings = (.ok b, later)) xs (as.map text) := by
  refine (Ensures.mapM fun x hx warnings a later hrun => ?_).imp fun _ has =>
    List.forall₂_map_right_iff.2 has
  exact ⟨warnings, later, hg x hx ▸ run_return text hrun⟩

end CompileM

section

open Compiler

theorem ensures_values (args : List (Arg Expr)) :
    (values (c.operands none args) none).Ensures fun ts =>
      AreCompiled (c.compile .scalar) (args.map Arg.value) (ts.map (Term.text false)) := by
  rw [values, operands_eq_map, List.mapM_map, AreCompiled]
  simp only [List.forall₂_map_left_iff]
  exact CompileM.ensures_mapM_run (g := fun arg : Arg Expr => c.compile .scalar arg.value)
    fun _ _ => rfl

theorem ensures_term (e : Expr) :
    (c.term none e none).Ensures fun t =>
      AreCompiled (c.compile .scalar) [e] ([t].map (Term.text false)) :=
  fun warnings _ later hrun => .cons ⟨warnings, later, CompileM.run_return _ hrun⟩ .nil

theorem ensures_keys (keys : List Expr) :
    (keys.mapM fun key => c.keyTerm none key none).Ensures fun ts =>
      AreCompiled (c.compileKey .scalar) keys (ts.map (Term.text true)) :=
  CompileM.ensures_mapM_run fun _ _ => rfl

theorem ensures_noKeys :
    (pure [] : CompileM (List Term)).Ensures fun ts =>
      AreCompiled (c.compileKey .scalar) [] (ts.map (Term.text true)) :=
  .pure .nil

/-- A key that is an argument of the call. -/
theorem ensures_ownKey {key : Expr} {compiled : CompileM Term}
    (hkey : compiled = c.keyTerm none key none) :
    (do return [← compiled]).Ensures fun ts =>
      AreCompiled (c.compileKey .scalar) [key] (ts.map (Term.text true)) := by
  intro warnings ts later hrun
  refine ensures_keys (c := c) [key] warnings ts later ?_
  rw [List.mapM_cons, List.mapM_nil, ← hkey]
  exact hrun

variable {form : SqlForm} {call : OverCall} {frame : Frame} {body : Term}

/-- A window is written in full, but for the rows that it runs over where these have no order. -/
theorem ensures_withWindow (call : OverCall) (hpartition : frame.partition = call.partition)
    (hbody : IsCalled c form (call.args.map Arg.value) (body.text false))
    {order : CompileM (List Term)}
    (horder : order.Ensures fun ts =>
      AreCompiled (c.compileKey .scalar) call.order (ts.map (Term.text true)))
    {running : Bool} (hrunning : call.order ≠ [] → running = call.running) :
    (c.withWindow none frame body order running).Ensures fun t =>
      call.IsWritten c form (t.text false) := by
  have hcolumns : (frame.partition.mapM (c.column none)).Ensures fun partition =>
      List.Forall₂ (fun name text => c.dialect.quoteIdentifier name = .ok text) call.partition
        partition := by
    rw [← hpartition]
    exact .mapM fun name _ => .attempt fun _ hquoted => hquoted
  refine hcolumns.bind fun partition hpartition => horder.bind fun keys hkeys => .pure ?_
  refine ⟨_, partition, _, hbody, hpartition, hkeys, ?_⟩
  rw [text_windowed]
  rcases call.order.eq_nil_or_concat with hnone | ⟨rest, last, hsome⟩
  · rw [hnone] at hkeys
    rw [List.forall₂_nil_left_iff.1 hkeys]
    cases partition <;> rfl
  · rw [hrunning (by simp [hsome])]

theorem isCalled_apply {sql : String} (hform : form.overFunction? = some sql) {args : List Expr}
    {ts : List Term} (hargs : AreCompiled (c.compile .scalar) args (ts.map (Term.text false))) :
    IsCalled c form args ((Term.apply sql ts).text false) := by
  rw [Term.text, Term.texts_eq_map, Term.parenthesised, ← String.append_assoc,
    ← String.append_assoc]
  exact .function hform hargs

theorem isCalled_countDistinct {args : List Expr} {ts : List Term}
    (hargs : AreCompiled (c.compile .scalar) args (ts.map (Term.text false))) :
    IsCalled c (.special .nDistinct) args ((Term.countDistinct ts).text false) := by
  have hopen : "COUNT" ++ "(" ++ "DISTINCT " = "COUNT(DISTINCT " := by decide
  rw [Term.text, Term.texts_eq_map, Term.parenthesised, ← String.append_assoc,
    ← String.append_assoc, ← String.append_assoc, hopen]
  exact .countDistinct hargs

theorem ensures_writeOver {w : Window} {args : List (Arg Expr)} (function : String)
    (hcall : form.over? w args = some call) (hpartition : frame.partition = w.partition)
    (horder : frame.order = w.order.mapM fun key => c.keyTerm none key none) :
    (c.writeAs none function (c.operands none args) (some frame) form).Ensures fun t =>
      call.IsWritten c form (t.text false) := by
  have hframe : frame.order.Ensures fun ts =>
      AreCompiled (c.compileKey .scalar) w.order (ts.map (Term.text true)) := by
    rw [horder]
    exact ensures_keys w.order
  cases form with
  | aggregate sql =>
      cases hcall
      exact (ensures_values args).bind fun ts hts =>
        ensures_withWindow ⟨args, w.partition, [], false⟩ hpartition (isCalled_apply rfl hts)
          ensures_noKeys fun _ => rfl
  | countStar =>
      cases hcall
      exact ensures_withWindow ⟨args, w.partition, [], false⟩ hpartition (.countStar _)
        ensures_noKeys fun _ => rfl
  | ranking sql =>
      cases hcall
      have hnone : AreCompiled (c.compile .scalar) [] (([] : List Term).map (Term.text false)) :=
        .nil
      have hcalled : IsCalled c (.ranking sql) [] ((Term.apply sql []).text false) :=
        isCalled_apply rfl hnone
      cases args with
      | nil => exact ensures_withWindow _ hpartition hcalled hframe fun _ => rfl
      | cons key rest =>
          exact ensures_withWindow _ hpartition hcalled (ensures_ownKey (c.key_of none key.value))
            fun _ => rfl
  | offset sql =>
      cases hcall
      exact (ensures_values args).bind fun ts hts =>
        ensures_withWindow _ hpartition (isCalled_apply rfl hts) hframe fun _ => rfl
  | cumulative sql =>
      cases hcall
      exact (ensures_values args).bind fun ts hts =>
        ensures_withWindow _ hpartition (isCalled_apply rfl hts) hframe fun hsome => by simp_all
  | ntile =>
      cases hcall
      match args with
      | [] => exact .throw _
      | [key] => exact .throw _
      | key :: buckets :: rest =>
          exact (ensures_term (c := c) buckets.value).bind fun t ht =>
            ensures_withWindow _ hpartition (isCalled_apply rfl ht)
              (ensures_ownKey (c.key_of none key.value)) fun _ => rfl
  | special special =>
      cases special with
      | nDistinct =>
          cases hcall
          exact (ensures_values args).bind fun ts hts =>
            ensures_withWindow ⟨args, w.partition, [], false⟩ hpartition
              (isCalled_countDistinct hts) ensures_noKeys fun _ => rfl
      | _ => cases hcall
  | scalar | binary | unary => cases hcall

/-- A call over a window is written with the rows that it sees, in the order in which it sees
them. -/
theorem ensures_overCall {w : Window} {function : String} {args : List (Arg Expr)}
    (hform : c.functions.form? function args.length = some form)
    (hcall : form.over? w args = some call) (window : Bool) :
    (c.compile { window := some w, qualifier := none } (.call function args window)).Ensures
      (call.IsWritten c form) := by
  rw [FunctionTable.form?] at hform
  split at hform
  · next entry hfound =>
      cases hform
      have hlength : (c.operands none args).length = args.length := by
        rw [operands_eq_map, List.length_map]
      have hcompiled : (c.term none (.call function args window)
          (c.frame { window := some w, qualifier := none })).Ensures fun t =>
            call.IsWritten c entry.form (t.text false) := by
        rw [term, Compiler.call, hlength, hfound]
        dsimp only
        split
        · exact .bind_any fun _ => ensures_writeOver function hcall rfl rfl
        · exact ensures_writeOver function hcall rfl rfl
      exact hcompiled.bind fun _ ht => .pure ht
  · cases hform

end

end SqlChain
