import SqlChain.Proofs.Chain.Course
import SqlChain.Proofs.Inherited
import SqlChain.Query.Render

/-!
# Errors of a kind

If all that a compiler writes fails only with errors of a kind, and the names that cannot be quoted
and the calls that nothing can stand for are of that kind too, then so are all errors of the moves
that a chain is made of.
-/

namespace SqlChain

variable {c : Compiler} {E : Error → Prop}

/-- All that a compiler writes, or has to do without a window, fails only with errors of a kind. -/
structure Compiler.FailsOnly (c : Compiler) (E : Error → Prop) : Prop where
  identifier : ∀ name quote dialect, E (.invalidIdentifier name quote dialect)
  unsupported : ∀ name dialect, E (.unsupportedEmulation name dialect)
  /-- Without a window, a rank asks for its argument. -/
  unranked : ∀ function sql, c.functions.form? function 0 = some (.ranking sql) →
    sql = "RANK" ∨ sql = "DENSE_RANK" → E (.missingArgument function 0)
  compile : ∀ context e, (c.compile context e).Meets (fun _ => True) E
  operand : ∀ context e, (c.compileOperand context e).Meets (fun _ => True) E
  keys : ∀ context keys, (c.compileKeys context keys).Meets (fun _ => True) E

/-! ## Texts -/

section

variable (hE : ∀ name quote dialect, E (.invalidIdentifier name quote dialect)) (d : Dialect)

include hE

theorem failsWith_renderItem (item : Item) : FailsWith E (item.render d) := by
  refine (d.failsWith_quoteIdentifier hE item.name).bind fun quoted => ?_
  cases item.value with
  | column side name => exact (d.failsWith_quoteQualified hE _ name).bind fun _ => .ok _
  | computed | rank => exact .ok _

theorem failsWith_renderItems (b : Body) : FailsWith E (b.renderItems d) := by
  rw [Body.renderItems]
  split
  · exact .ok _
  · exact (FailsWith.mapM (failsWith_renderItem hE d)).bind fun _ => .ok _

theorem failsWith_renderGroupBy (b : Body) : FailsWith E (b.renderGroupBy d) := by
  rw [Body.renderGroupBy]
  split
  · exact .ok _
  · exact (FailsWith.mapM (d.failsWith_quoteIdentifier hE)).bind fun _ => .ok _

theorem failsWith_render (level : Level) : FailsWith E (level.render d) := by
  have hitems := failsWith_renderItems hE d
  have hgroupBy := failsWith_renderGroupBy hE d
  induction level with
  | table schema name body =>
      refine (hitems body).bind fun _ => ?_
      refine (d.failsWith_quoteQualified hE schema name).bind fun _ => ?_
      exact (hgroupBy body).bind fun _ => .ok _
  | subquery inner tableName body ih =>
      refine (hitems body).bind fun _ => ih.bind fun _ => ?_
      refine (d.failsWith_quoteIdentifier hE tableName).bind fun _ => ?_
      exact (hgroupBy body).bind fun _ => .ok _
  | join left right on body ihl ihr =>
      refine (hitems body).bind fun _ => ihl.bind fun _ => ?_
      refine (d.failsWith_quoteIdentifier hE _).bind fun _ => ihr.bind fun _ => ?_
      refine (d.failsWith_quoteIdentifier hE _).bind fun _ => ?_
      exact (hgroupBy body).bind fun _ => .ok _

end

theorem failsWith_matchGroups (hc : c.FailsOnly E) (left right : String) (groups : List String) :
    FailsWith E (c.matchGroups left right groups) := by
  refine .mapM fun group => ?_
  refine (c.dialect.failsWith_quoteQualified hc.identifier _ group).bind fun _ => ?_
  exact (c.dialect.failsWith_quoteQualified hc.identifier _ group).bind fun _ => .ok _

theorem failsWith_matching (hc : c.FailsOnly E) (groups : List String) :
    FailsWith E (c.matching groups) :=
  (failsWith_matchGroups hc _ _ groups).bind fun _ => .ok _

/-! ## Checks -/

theorem failsWith_checkAssignments {s : State}
    (hgroup : ∀ fault, E (.invalidArgument "summarise" fault)) {assignments : List (String × Expr)}
    (hassignments : ∀ a ∈ assignments, FailsWith E (s.checkReferences a.2)) :
    FailsWith E (Compiler.checkAssignments s assignments) := by
  induction assignments with
  | nil => exact .ok _
  | cons a rest ih =>
      obtain ⟨hfirst, hrest⟩ := List.forall_mem_cons.1 hassignments
      refine hfirst.bind fun _ => ?_
      split
      · exact .error (hgroup _)
      · exact ih hrest

namespace BuildM

/-! ## Moves -/

theorem fails_select {s : State} {idents : List Ident}
    (hidents : FailsWith E (s.checkNames (idents.map (·.name)))) : (s.select idents).Fails E :=
  (Fails.lift hidents).bind fun _ => (Fails.modifyGet _).bind fun _ => .pure _

theorem fails_wrapIf (s : State) (condition : Bool) : (s.wrapIf condition).Fails E := by
  rw [State.wrapIf]
  split
  · exact (Fails.modifyGet _).bind fun _ => .pure _
  · exact .pure _

variable (hc : c.FailsOnly E)

include hc

theorem fails_compile (context : Context) (e : Expr) :
    (compiling (c.compile context e)).Fails E :=
  .compiling (hc.compile context e)

theorem fails_filterRows (s : State) (e : Expr) : (c.filterRows s e).Fails E :=
  (fails_wrapIf s _).bind fun _ => (fails_compile hc .scalar e).bind fun _ => .pure _

theorem fails_assign (s : State) (windowed : Bool) (name : String) (e : Expr) :
    (c.assign s windowed name e).Fails E :=
  (fails_wrapIf s _).bind fun _ => (fails_compile hc _ e).bind fun _ => .pure _

theorem fails_correlatedRank (text : String) (dense : Bool) (key : Expr) (groups : List String) :
    (c.correlatedRank text dense key groups).Fails E := by
  refine (Fails.compiling (hc.operand _ _)).bind fun _ => ?_
  refine (Fails.compiling (hc.operand _ _)).bind fun _ => ?_
  refine (Fails.lift (failsWith_matchGroups hc _ _ groups)).bind fun _ => ?_
  exact (Fails.lift (c.dialect.failsWith_quoteIdentifier hc.identifier _)).bind fun _ => .pure _

theorem fails_emulate (text : String) (groups : List String) (x : ExtractedCall) :
    (c.emulate text groups x).Fails E := by
  unfold Compiler.emulate
  split
  · exact .throw (hc.unsupported _ _)
  · next form hform =>
      split
      · exact (fails_compile hc _ _).bind fun _ => .pure _
      · split
        · next hrank =>
            split
            · next hargs =>
                rw [hargs] at hform
                refine .throw ?_
                rcases hrank with rfl | rfl
                · exact hc.unranked _ _ hform (.inl rfl)
                · exact hc.unranked _ _ hform (.inr rfl)
            · exact (fails_correlatedRank hc text _ _ groups).bind fun _ => .pure _
        · exact .throw (hc.unsupported _ _)

theorem fails_emulateAll (s : State) (calls : List ExtractedCall) :
    (c.emulateAll s calls).Fails E := by
  refine (Fails.lift (failsWith_render hc.identifier c.dialect s.level)).bind fun text => ?_
  refine (Fails.mapM (fails_emulate hc text s.groups)).bind fun emulated => ?_
  dsimp only
  split
  · exact .pure _
  · refine (Fails.modifyGet _).bind fun _ => ?_
    exact (Fails.lift (failsWith_matching hc s.groups)).bind fun _ => .pure _

theorem fails_materialise (s : State) (calls : List ExtractedCall) :
    (c.materialise s calls).Fails E := by
  unfold Compiler.materialise
  split
  · exact fails_emulateAll hc s calls
  · dsimp only
    split
    · exact (Fails.pure s).bind fun _ => .foldlM fun s x => fails_assign hc s true _ _
    · exact (fails_emulateAll hc s _).bind fun _ => .foldlM fun s x => fails_assign hc s true _ _

theorem fails_placing (s : State) (e : Expr) : (placing c s e).Fails E := by
  refine Fails.bind ?_ fun taken => (fails_materialise hc s taken.2).bind fun _ => .pure _
  rintro _ _ ⟨⟩

theorem fails_summarise (hgroup : ∀ fault, E (.invalidArgument "summarise" fault)) (s : State)
    {assignments : List (String × Expr)}
    (hassignments : ∀ a ∈ assignments, FailsWith E (s.checkReferences a.2)) :
    (c.summarise s assignments).Fails E := by
  refine (Fails.lift (failsWith_checkAssignments hgroup hassignments)).bind fun _ => ?_
  refine (fails_wrapIf s _).bind fun _ => (Fails.mapM fun a => ?_).bind fun _ => .pure _
  exact (fails_compile hc .scalar a.2).bind fun _ => .pure _

theorem fails_finish (s : State) : (c.finish s).Fails E := by
  refine (fails_wrapIf s _).bind fun s' => ?_
  refine (Fails.lift (failsWith_render hc.identifier c.dialect s'.level)).bind fun _ => ?_
  refine (Fails.compiling (hc.keys .scalar s'.order)).bind fun _ => ?_
  exact (Fails.modifyGet _).bind fun _ => .pure _

end BuildM

/-! ## Statements -/

theorem Query.render_eq_error_iff {q : Query} {mode : Mode} {dialect : Dialect} {config : Config}
    {e : Error} : q.render mode dialect config = .error e ↔
      (rendering (.builtin dialect config) mode q).run .start = .error e := by
  rw [render]
  cases (rendering (.builtin dialect config) mode q).run .start with
  | error e' =>
      refine ⟨fun h => ?_, fun h => ?_⟩ <;> cases h <;> rfl
  | ok answer => exact ⟨nofun, nofun⟩

end SqlChain
