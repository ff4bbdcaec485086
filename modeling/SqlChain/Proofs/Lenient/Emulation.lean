import SqlChain.Proofs.Chain.Emulation
import SqlChain.Proofs.Lenient.Expression

/-!
# Windows for a compiler that refuses little

A call that can be had without a window can be had with one. So an expression whose window calls
were emulated is accepted as it is by a compiler that has windows.
-/

namespace SqlChain

open CompileM

/-- Lenient, and with the same functions. None of them lists candidates. -/
structure Compiler.IsLenientFor (a c : Compiler) : Prop extends a.IsLenient where
  functions : a.functions = c.functions
  lists : ∀ arity, c.functions.form? "c" arity = none

theorem Compiler.isLenientFor_default (dialect : Dialect) (config : Config) :
    (Compiler.builtin .ansi .default).IsLenientFor (.builtin dialect config) where
  quotes := by
    intro name
    rw [Compiler.builtin, Dialect.quoteIdentifier]
    split <;> exact ⟨_, rfl⟩
  windows := rfl
  lax := rfl
  functions := rfl
  lists := by
    intro arity
    have hnone : FunctionTable.builtin.named "c" = [] := by decide
    change FunctionTable.builtin.form? "c" arity = none
    rw [FunctionTable.form?, FunctionTable.lookup, hnone]

variable {c a : Compiler} {e other : Expr}

/-- A rank by its own argument can be written over every window. -/
theorem Compiler.IsLenient.succeeds_ranking (h : a.IsLenient) {function sql : String}
    {arg : Arg Operand} {rest : List (Arg Operand)}
    (hform : a.functions.form? function (rest.length + 1) = some (.ranking sql))
    (hkey : arg.value.key.Succeeds) (r : Option String) (g : Frame) :
    (a.call r function (arg :: rest) (some g)).Succeeds := by
  have hranking : (a.writeAs r function (arg :: rest) (some g) (.ranking sql)).Succeeds := by
    refine Succeeds.bind (.pure g) fun g => Succeeds.bind (.mapM fun name _ => ?_) fun _ => ?_
    · exact h.succeeds_column r name
    · exact (hkey.bind fun _ => .pure _).bind fun _ => .pure _
  rw [FunctionTable.form?] at hform
  rw [Compiler.call, List.length_cons]
  split at hform
  · next entry hentry =>
      rw [Option.some.injEq] at hform
      rw [← hform] at hranking
      rw [hentry]
      dsimp only
      split
      · exact (succeeds_warnIfNamed function _).bind fun _ => hranking
      · exact hranking
  · cases hform

theorem Compiler.key_operand (c : Compiler) (q : Option String) (e : Expr) :
    (c.operand q e).key = c.keyTerm q e none := by
  cases e with
  | call function args window =>
      by_cases hdesc : function = "desc"
      · subst hdesc
        match args with
        | [] => rfl
        | [arg] => rfl
        | arg :: other :: rest => rfl
      · simp [operand, Operand.of, keyTerm, Expr.descending?, hdesc]
  | _ => rfl

namespace Compiler.IsLenientFor

variable (h : a.IsLenientFor c)

include h

/-! ## The same expression -/

theorem leads_term {f g : Option Frame} (hframe : FrameLeads f g) (hsame : e.Resembles other)
    (q r : Option String) : (c.term q e f).Leads (a.term r other g) := by
  have hadmits : Admits c a r (fun _ => False) (fun _ _ _ => True)
      fun x y => (x = none ∧ y = none) ∨ (x = f ∧ y = g) :=
    { lenient := h.toIsLenient
      functions := h.functions
      frames := by
        rintro x y (⟨rfl, rfl⟩ | ⟨rfl, rfl⟩)
        · exact .none_left none
        · exact hframe
      taken := nofun
      kept := fun _ _ _ _ _ _ _ => .inl ⟨rfl, rfl⟩ }
  exact (operandLeads hadmits hsame).value f g (.inr ⟨rfl, rfl⟩)

theorem leads_keyTerm (q r : Option String) (key : Expr) :
    (c.keyTerm q key none).Leads (a.keyTerm r key none) := by
  have hterm : ∀ e, (c.term q e none).Leads (a.term r e none) := fun e =>
    h.leads_term (.none_left none) e.resembles_refl q r
  rw [Compiler.keyTerm, Compiler.keyTerm]
  split
  · exact (hterm _).bind fun _ _ _ => .pure True.intro
  · exact hterm key

theorem leads_compileKeys (keys : List Expr) :
    (c.compileKeys .scalar keys).Leads (a.compileKeys .scalar keys) := by
  refine LeadsTo.leads (LeadsTo.mapM (Q := fun _ _ => True) (List.forall₂_same.2 fun key _ => ?_))
  exact (h.leads_keyTerm none none key).bind fun _ _ _ => .pure True.intro

theorem leads_compile (hsame : e.Resembles other) :
    (c.compile .scalar e).Leads (a.compile .scalar other) :=
  (h.leads_term (.none_left none) hsame none none).bind fun _ _ _ => .pure True.intro

theorem leads_compile_windowed (groups : List String) (order : List Expr) (e : Expr) :
    (c.compile (.windowed groups order) e).Leads (a.compile (.windowed groups order) e) := by
  have hframe : FrameLeads (c.frame (.windowed groups order)) (a.frame (.windowed groups order)) :=
    (LeadsTo.mapM (Q := fun _ _ => True)
      (List.forall₂_same.2 fun key _ => h.leads_keyTerm none none key)).leads
  exact (h.leads_term hframe e.resembles_refl none none).bind fun _ _ _ => .pure True.intro

/-! ## Calls without windows -/

variable {source : String} {groups : List String} {x : ExtractedCall} {emulated : Compiler.Emulated}

theorem succeeds_keyTerm {q : Option String} {key : Expr}
    (hkey : (c.term q (key.descending?.getD key) none).Passes) (r : Option String) :
    (a.keyTerm r key none).Succeeds := by
  have hsucceeds := (h.leads_term (.none_left none) (Expr.resembles_refl _) q r).succeeds hkey
  rw [Compiler.keyTerm]
  cases hdescending : key.descending? with
  | none => rwa [hdescending] at hsucceeds
  | some operand =>
      rw [hdescending] at hsucceeds
      exact hsucceeds.bind fun _ => .pure _

/-- Over a window nothing stands in the way of a call that is emulated. -/
theorem succeeds_term (hx : Emulates c source groups x emulated) (g : Frame) :
    (a.term none x.call (some g)).Succeeds := by
  cases hx with
  | aggregate _ _ hspelled =>
      obtain ⟨warnings, later, hrun⟩ := hspelled
      have hterm : (c.term none x.call none).Passes := .of_bind ⟨warnings, _, later, hrun⟩
      exact (h.leads_term (.none_left (some g)) x.call.resembles_refl none none).succeeds hterm
  | @rank form key rest r hform hranking hargs hkey _ _ hspelled =>
      obtain ⟨inner, _, _, _, ⟨warnings, later, hinner⟩, _⟩ := hspelled
      rw [hkey] at hinner
      have hkey := h.succeeds_keyTerm (.of_bind ⟨warnings, _, later, hinner⟩) none
      rw [← key_operand] at hkey
      rw [hranking, hargs, ← h.functions] at hform
      have hcall : a.term none x.call (some g) = a.call none x.function
          (⟨key.name, a.operand none key.value⟩ :: a.operands none rest) (some g) := by
        rw [ExtractedCall.call, Compiler.term, hargs]
        rfl
      rw [hcall]
      have hlength : (a.operands none rest).length = rest.length := by
        rw [Compiler.operands_eq_map, List.length_map]
      rw [List.length_cons, ← hlength] at hform
      exact h.toIsLenient.succeeds_ranking hform hkey none g

/-- Calls that are emulated may stand where they stood before they were taken out. -/
theorem leads_compile_filled {taken : Expr → Prop} {rest : Expr}
    (hfills : Expr.FillsRest c.isWindowCall taken rest e)
    (htaken : ∀ t, taken t → ∃ source groups x emulated, t = x.call ∧
      Emulates c source groups x emulated) (groups : List String) (order : List Expr) :
    (c.compile .scalar rest).Leads (a.compile (.windowed groups order) e) := by
  obtain ⟨g, hg⟩ : ∃ g, a.frame (.windowed groups order) = some g := ⟨_, rfl⟩
  have hadmits : Admits c a none taken
      (fun function arity window => c.isWindowCall function arity window = false)
      fun x y => x = none ∧ y = some g :=
    { lenient := h.toIsLenient
      functions := h.functions
      frames := by
        rintro x y ⟨rfl, rfl⟩
        exact .none_left _
      taken := by
        intro t ht
        obtain ⟨source, groups, x, emulated, rfl, hx⟩ := htaken t ht
        refine ⟨by rintro ⟨-, ⟨⟩⟩, ?_, x.function, x.args, x.window, rfl, ?_⟩
        · rintro _ _ ⟨rfl, rfl⟩
          exact h.succeeds_term hx g
        · intro hc
          have hform := h.lists x.args.length
          rw [← hc] at hform
          cases hx <;> simp_all
      kept := by
        intro function arity window form hkept hform hwindow
        rw [Compiler.isWindowCall, hform] at hkept
        rcases hwindow with hwindow | hwindow <;> simp [hwindow] at hkept }
  have hterm : (c.term none rest none).Leads (a.term none e (some g)) :=
    (operandLeads hadmits hfills).value none (some g) ⟨rfl, rfl⟩
  rw [← hg] at hterm
  exact hterm.bind fun _ _ _ => .pure True.intro

end Compiler.IsLenientFor

/-! ## Levels -/

namespace Compiler.IsLenient

variable (h : a.IsLenient)

include h

theorem exists_render_item (item : Item) : ∃ text, item.render a.dialect = .ok text := by
  refine exists_bind_eq_ok (h.quotes item.name) fun quoted => ?_
  cases item.value with
  | column side source =>
      exact exists_bind_eq_ok (h.exists_quoteQualified _ source) fun _ => ⟨_, rfl⟩
  | computed f => exact ⟨_, rfl⟩
  | rank r => exact ⟨_, rfl⟩

theorem exists_renderItems (b : Body) : ∃ text, b.renderItems a.dialect = .ok text := by
  rw [Body.renderItems]
  split
  · exact ⟨_, rfl⟩
  · exact exists_bind_eq_ok (exists_mapM_eq_ok fun item _ => h.exists_render_item item)
      fun _ => ⟨_, rfl⟩

theorem exists_renderGroupBy (b : Body) : ∃ text, b.renderGroupBy a.dialect = .ok text := by
  rw [Body.renderGroupBy]
  split
  · exact ⟨_, rfl⟩
  · exact exists_bind_eq_ok (exists_mapM_eq_ok fun name _ => h.quotes name) fun _ => ⟨_, rfl⟩

theorem exists_render (level : Level) : ∃ sql, level.render a.dialect = .ok sql := by
  induction level with
  | table schema name body =>
      refine exists_bind_eq_ok (h.exists_renderItems body) fun _ => ?_
      refine exists_bind_eq_ok (h.exists_quoteQualified schema name) fun _ => ?_
      exact exists_bind_eq_ok (h.exists_renderGroupBy body) fun _ => ⟨_, rfl⟩
  | subquery inner tableName body ih =>
      refine exists_bind_eq_ok (h.exists_renderItems body) fun _ => ?_
      refine exists_bind_eq_ok ih fun _ => ?_
      refine exists_bind_eq_ok (h.quotes tableName) fun _ => ?_
      exact exists_bind_eq_ok (h.exists_renderGroupBy body) fun _ => ⟨_, rfl⟩
  | join left right on body ihLeft ihRight =>
      refine exists_bind_eq_ok (h.exists_renderItems body) fun _ => ?_
      refine exists_bind_eq_ok ihLeft fun _ => ?_
      refine exists_bind_eq_ok (h.quotes Side.left.tableName) fun _ => ?_
      refine exists_bind_eq_ok ihRight fun _ => ?_
      refine exists_bind_eq_ok (h.quotes Side.right.tableName) fun _ => ?_
      exact exists_bind_eq_ok (h.exists_renderGroupBy body) fun _ => ⟨_, rfl⟩

theorem exists_matchGroups (left right : String) (groups : List String) :
    ∃ conditions, a.matchGroups left right groups = .ok conditions := by
  refine exists_mapM_eq_ok fun group _ => ?_
  refine exists_bind_eq_ok (h.exists_quoteQualified (some left) group) fun _ => ?_
  exact exists_bind_eq_ok (h.exists_quoteQualified (some right) group) fun _ => ⟨_, rfl⟩

theorem exists_matching (groups : List String) : ∃ on, a.matching groups = .ok on :=
  exists_bind_eq_ok (h.exists_matchGroups _ _ groups) fun _ => ⟨_, rfl⟩

end Compiler.IsLenient

namespace BuildM

variable {source : String} {groups : List String} {x y : ExtractedCall}
  {emulated : Compiler.Emulated} {before : List Warning}

theorem succeedsAfter_correlatedRank (h : a.IsLenientFor c) {q : Option String} {key : Expr}
    (hkey : (c.term q (key.descending?.getD key) none).Passes) (source : String) (dense : Bool)
    (groups : List String) : (a.correlatedRank source dense key groups).SucceedsAfter before := by
  have hoperand : ∀ table,
      (a.compileOperand (.qualified table) (key.descending?.getD key)).Succeeds := by
    intro table
    have hterm := h.leads_term (.none_left none) (key.descending?.getD key).resembles_refl q
    exact ((hterm (some table)).succeeds hkey).bind fun _ => .pure _
  refine SucceedsAfter.seq (.compiling (hoperand _)) fun _ _ => ?_
  refine SucceedsAfter.seq (.compiling (hoperand _)) fun _ _ => ?_
  refine SucceedsAfter.seq (.lift (h.exists_matchGroups _ _ groups)) fun _ _ => ?_
  exact SucceedsAfter.seq (.lift (h.quotes _)) fun _ _ => .pure _

/-- What is emulated for one compiler is emulated for another, whatever it is called. -/
theorem succeedsAfter_emulate (h : a.IsLenientFor c) (hx : Emulates c source groups x emulated)
    (hcall : y.call = x.call) (source : String) (groups : List String) :
    (a.emulate source groups y).SucceedsAfter before := by
  obtain ⟨temporary, function, args, window⟩ := y
  obtain ⟨rfl, rfl, rfl⟩ : function = x.function ∧ args = x.args ∧ window = x.window := by
    simpa [ExtractedCall.call] using hcall
  unfold Compiler.emulate
  rw [h.functions]
  cases hx with
  | aggregate hform haggregate hspelled =>
      obtain ⟨warnings, later, hrun⟩ := hspelled
      rw [hform]
      dsimp only
      rw [if_pos haggregate]
      have hcompile := (h.leads_compile x.call.resembles_refl).succeeds ⟨warnings, _, later, hrun⟩
      exact SucceedsAfter.seq (.compiling hcompile) fun _ _ => .pure _
  | @rank form key rest r hform hranking hargs hkey _ _ hspelled =>
      obtain ⟨inner, _, _, _, ⟨warnings, later, hinner⟩, _⟩ := hspelled
      rw [hkey] at hinner
      have hterm : (c.term (some Compiler.rankTable) (key.value.descending?.getD key.value)
          none).Passes := .of_bind ⟨warnings, _, later, hinner⟩
      have hforms : form = .ranking "RANK" ∨ form = .ranking "DENSE_RANK" := by
        rw [hranking]
        cases r.dense <;> simp
      have haggregate : form.isAggregate ≠ true := by
        rw [hranking]
        simp [SqlForm.isAggregate]
      rw [hform]
      dsimp only
      rw [if_neg haggregate, if_pos hforms, hargs]
      dsimp only
      exact SucceedsAfter.seq (succeedsAfter_correlatedRank h hterm source _ groups)
        fun _ _ => .pure _

end BuildM

end SqlChain
