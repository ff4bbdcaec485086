import SqlChain.Proofs.Lockstep.Build

/-!
# Strict statements

A setting asks for functions that are not known to be refused. It takes away nothing else: what is
rendered under it is rendered in the same way without it, and a statement that only it refuses is
refused for a function that has no entry at all (`render_withStrictSql`). A function that is known,
but not with so many arguments, is refused in either case.
-/

namespace SqlChain

def Config.withStrictSql (strict : Bool) (config : Config) : Config :=
  { config with strictSql := strict }

/-- Whether a call of this function with so many arguments occurs in what an operation is given. -/
def Query.Calls (q : Query) (function : String) (arity : Nat) : Prop :=
  ∃ op ∈ q.ops, ∃ e ∈ op.exprs, e.any (Expr.isCallOf function arity) = true

/-- A function that is called in the query and that the table has no entry for. -/
def Query.LacksEntry (q : Query) (error : Error) : Prop :=
  ∃ function arity, error = .unknownFunction function arity ∧
    FunctionTable.builtin.named function = [] ∧ q.Calls function arity

/-! ## Calls with too few or too many arguments -/

/-- A function that has entries, but none for so many arguments. -/
structure FunctionTable.Misfits (table : FunctionTable) (name : String) (arity : Nat) : Prop where
  known : table.named name ≠ []
  refused : ∀ entry ∈ table.named name, entry.arity.accepts arity = false

/-- The answer to a call of such a function. -/
def FunctionTable.misfit (table : FunctionTable) (name : String) (arity : Nat) : Error :=
  .wrongArity name ((table.named name).map FunctionEntry.arity) arity

section

variable {function : String} {args : List (Arg Expr)}

theorem FunctionTable.Misfits.lookup_eq {table : FunctionTable} {name : String} {arity : Nat}
    (h : table.Misfits name arity) :
    table.lookup name arity = .wrongArity ((table.named name).map FunctionEntry.arity) := by
  have hnone : (table.named name).find? (·.arity.accepts arity) = none := by
    rw [List.find?_eq_none]
    intro entry hentry
    simp [h.refused entry hentry]
  unfold lookup
  split
  · next hnil => exact absurd hnil h.known
  · rw [hnone]

variable (h : FunctionTable.builtin.Misfits function args.length)

include h

theorem term_of_misfits (dialect : Dialect) (config : Config) (q : Option String) (window : Bool)
    (frame : Option Frame) :
    (Compiler.builtin dialect config).term q (.call function args window) frame =
      throw (FunctionTable.builtin.misfit function args.length) := by
  have hlookup : (Compiler.builtin dialect config).functions.lookup function args.length = _ :=
    h.lookup_eq
  rw [Compiler.term, Compiler.call, Compiler.operands_eq_map, List.length_map, hlookup]
  rfl

/-- One key is all that can be marked as descending, so that such a call marks none. -/
theorem descending?_of_misfits (window : Bool) :
    (Expr.call function args window).descending? = none := by
  by_cases hdesc : function = "desc"
  · subst hdesc
    refine Expr.descending?_call_of_length (fun hone => ?_) "desc" window
    have hrefused := h.refused ⟨"desc", .exact 1, .special .descending⟩ (by decide)
    rw [hone] at hrefused
    cases hrefused
  · exact Expr.descending?_call_of_ne hdesc args window

theorem compile_of_misfits (dialect : Dialect) (config : Config) (context : Context)
    (window : Bool) :
    ∀ compile ∈ [Compiler.compile, Compiler.compileOperand, Compiler.compileKey], ∀ warnings,
      (compile (.builtin dialect config) context (.call function args window)).run.run warnings =
        (.error (FunctionTable.builtin.misfit function args.length), warnings) := by
  have hterm := term_of_misfits h dialect config context.qualifier window
  simp only [List.forall_mem_cons]
  refine ⟨fun warnings => ?_, fun warnings => ?_, fun warnings => ?_, nofun⟩
  · rw [Compiler.compile, hterm]
    rfl
  · rw [Compiler.compileOperand, hterm]
    rfl
  · rw [Compiler.compileKey, Compiler.keyTerm, descending?_of_misfits h]
    dsimp only
    rw [hterm]
    rfl

end

/-! ## Statements -/

namespace Query

variable {q : Query} {mode : Mode} {dialect : Dialect} {config : Config}

theorem run_of_render {r : Rendered} (h : q.render mode dialect config = .ok r) :
    ∃ later, (rendering (.builtin dialect config) mode q).run .start = .ok (r, later) := by
  obtain ⟨⟨r', later⟩, hrun, h⟩ := exists_of_bind_eq_ok h
  cases h
  exact ⟨later, hrun⟩

theorem render_of_run {answer : Except Error (Rendered × Progress)}
    (h : (rendering (.builtin dialect config) mode q).run .start = answer) :
    q.render mode dialect config = answer.map Prod.fst := by
  rw [render, h]
  cases answer <;> rfl

/-- A statement that is rendered strictly and one that is not are in step. -/
theorem inStep_withStrictSql (q : Query) (mode : Mode) (dialect : Dialect) (config : Config) :
    BuildM.InStep q.LacksEntry (fun _ => True)
      (rendering (.builtin dialect (config.withStrictSql true)) mode q)
      (rendering (.builtin dialect (config.withStrictSql false)) mode q) := by
  have hlike : (Compiler.builtin dialect (config.withStrictSql true)).WritesLike
      (.builtin dialect (config.withStrictSql false)) := ⟨rfl, rfl, rfl⟩
  refine BuildM.inStep_rendering hlike mode fun op hop e he => ?_
  exact fun function arity hcall hnamed =>
    .inr ⟨rfl, function, arity, rfl, hnamed, op, hop, e, he, hcall⟩

/-- What is rendered when unknown functions are refused is rendered to the same statement when they
are not. What is refused only in the first case is refused for a function that is called in the
query and has no entry in the table. A call of a function that has entries, but none for so many
arguments, is refused for that in both cases, before anything is remarked. -/
theorem render_withStrictSql (q : Query) (mode : Mode) (dialect : Dialect) (config : Config) :
    (∀ r, q.render mode dialect (config.withStrictSql true) = .ok r →
      q.render mode dialect (config.withStrictSql false) = .ok r) ∧
    (∀ r error, q.render mode dialect (config.withStrictSql false) = .ok r →
      q.render mode dialect (config.withStrictSql true) = .error error →
        ∃ function arity, error = .unknownFunction function arity ∧
          FunctionTable.builtin.named function = [] ∧ q.Calls function arity) ∧
    ∀ (function : String) (args : List (Arg Expr)) (window : Bool),
      FunctionTable.builtin.Misfits function args.length → ∀ strict context,
        ∀ compile ∈ [Compiler.compile, Compiler.compileOperand, Compiler.compileKey], ∀ warnings,
          (compile (.builtin dialect (config.withStrictSql strict)) context
              (.call function args window)).run.run warnings =
            (.error (FunctionTable.builtin.misfit function args.length), warnings) := by
  have hstep := inStep_withStrictSql q mode dialect config .start
  refine ⟨fun r hr => ?_, fun r error hr herror => ?_, fun function args window h strict context =>
    compile_of_misfits h dialect (config.withStrictSql strict) context window⟩
  · obtain ⟨later, hrun⟩ := run_of_render hr
    rcases hstep with ⟨r', q', hstrict, hlax, _⟩ | ⟨e, hstrict, _⟩
    · rw [hrun] at hstrict
      cases hstrict
      exact render_of_run hlax
    · rw [hrun] at hstrict
      cases hstrict
  · obtain ⟨later, hrun⟩ := run_of_render hr
    rcases hstep with ⟨r', q', hstrict, _, _⟩ | ⟨e, hstrict, hstop | ⟨other, hlax, _⟩⟩
    · rw [render_of_run hstrict] at herror
      cases herror
    · rw [render_of_run hstrict] at herror
      cases herror
      exact hstop
    · rw [hrun] at hlax
      cases hlax

/-- A sound of a name, by a function that the table has no entry for. -/
def sounded : Query where
  source := { schema := none, name := "t", columns := ["x"] }
  ops := [.mutate [("y", .plainCall "soundex" [.column "x"])]]

theorem render_withStrictSql_sounded :
    (∃ r, sounded.render .plain .ansi (Config.default.withStrictSql false) = .ok r) ∧
    (∃ function arity, sounded.render .plain .ansi (Config.default.withStrictSql true) =
        .error (.unknownFunction function arity) ∧
      FunctionTable.builtin.named function = [] ∧ sounded.Calls function arity) ∧
    ((Compiler.builtin .ansi .default).compile .scalar
        (.call "round" (["x", "y", "z"].map fun name => ⟨none, .column name⟩) false)).run.run [] =
      (.error (.wrongArity "round" [.range 1 2] 3), []) := by
  obtain ⟨_, hrefused, harity⟩ := render_withStrictSql sounded .plain .ansi .default
  obtain ⟨r, hr⟩ := exists_of_isOk
    (r := sounded.render .plain .ansi (Config.default.withStrictSql false)) (by decide +kernel)
  have herror : sounded.render .plain .ansi (Config.default.withStrictSql true) =
      .error (.unknownFunction "soundex" 1) := by
    rfl
  have hround : FunctionTable.builtin.Misfits "round" 3 := ⟨by decide, by decide⟩
  obtain ⟨function, arity, heq, hlacks⟩ := hrefused r _ hr herror
  exact ⟨⟨r, hr⟩, ⟨function, arity, heq ▸ herror, hlacks⟩,
    harity "round" (["x", "y", "z"].map fun name => ⟨none, .column name⟩) false hround false
      .scalar _ List.mem_cons_self []⟩

end Query

end SqlChain
