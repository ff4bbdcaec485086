import SqlChain.Proofs.Chain.Spelling
import SqlChain.Proofs.Meaning.Compiled

/-!
# Levels without windows

What stands for every window call where no window is written, and the level in which all of them
stand together: a join with the groups of the level, or the level as a subquery if only ranks are
asked for.
-/

namespace SqlChain

variable {c : Compiler}

/-- The item that stands for a call. -/
inductive Emulates (c : Compiler) (source : String) (groups : List String) (x : ExtractedCall) :
    Compiler.Emulated → Prop
  | aggregate {form : SqlForm} {sql : String}
      (hform : c.functions.form? x.function x.args.length = some form)
      (haggregate : form.isAggregate = true)
      (hspelled : Fragment.IsSpelled c { expr := x.call, window := none, sql }) :
      Emulates c source groups x
        (.aggregate
          { name := x.temporary, value := .computed { expr := x.call, window := none, sql } })
  | rank {form : SqlForm} {key : Arg Expr} {rest : List (Arg Expr)} {r : CorrelatedRank}
      (hform : c.functions.form? x.function x.args.length = some form)
      (hranking : form = .ranking (if r.dense then "DENSE_RANK" else "RANK"))
      (hargs : x.args = key :: rest)
      (hkey : r.key = key.value.descending?.getD key.value)
      (hdescending : r.descending = key.value.descending?.isSome)
      (hgroups : r.groups = groups)
      (hspelled : r.IsSpelled c source) :
      Emulates c source groups x (.rank { name := x.temporary, value := .rank r })

/-- The level of a state with a column for every call. -/
inductive IsEmulation (c : Compiler) (s : State) (calls : List ExtractedCall) : State → Prop
  | ranks {source : String} {emulated : List Compiler.Emulated}
      (hsource : s.level.render c.dialect = .ok source)
      (hemulated : List.Forall₂ (Emulates c source s.groups) calls emulated)
      (hnone : emulated.filterMap Compiler.Emulated.aggregate? = []) :
      IsEmulation c s calls
        { s with
          level := .subquery s.level Side.left.tableName
            { Body.identity s.columns with
              items := s.columns.map (Item.ofSide .left) ++
                emulated.filterMap Compiler.Emulated.rank? } }
  | joined {source name : String} {emulated : List Compiler.Emulated} {on : Matching}
      (hsource : s.level.render c.dialect = .ok source)
      (hemulated : List.Forall₂ (Emulates c source s.groups) calls emulated)
      (hon : c.matching s.groups = .ok on) :
      IsEmulation c s calls
        { s with
          level := .join s.level
            (.subquery s.level name
              ((Body.identity s.columns).summary s.groups
                (emulated.filterMap Compiler.Emulated.aggregate?)))
            on
            { Body.identity s.columns with
              items := s.columns.map (Item.ofSide .left) ++
                (emulated.filterMap Compiler.Emulated.aggregate?).map
                  (fun item => Item.ofSide .right item.name) ++
                emulated.filterMap Compiler.Emulated.rank? } }

/-! ## Items -/

theorem Expr.mem_columnsOfArgs {args : List (Arg Expr)} {n : String} :
    n ∈ Expr.columnsOfArgs args ↔ ∃ arg ∈ args, n ∈ arg.value.columns := by
  induction args with
  | nil => simp [Expr.columnsOfArgs]
  | cons arg rest ih => simp [Expr.columnsOfArgs, ih]

/-- A key of an ordering has the same columns with and without its mark. -/
theorem Expr.columns_descending (e : Expr) : (e.descending?.getD e).columns = e.columns := by
  unfold Expr.descending?
  split
  · simp [Expr.columns, Expr.columnsOfArgs]
  · rfl

section

variable {source : String} {groups : List String} {calls : List ExtractedCall}
  {emulated : List Compiler.Emulated} {item : Item}

theorem exists_of_mem_aggregates (h : List.Forall₂ (Emulates c source groups) calls emulated)
    (hitem : item ∈ emulated.filterMap Compiler.Emulated.aggregate?) :
    ∃ x ∈ calls, ∃ sql, item =
        { name := x.temporary, value := .computed { expr := x.call, window := none, sql } } ∧
      Fragment.IsSpelled c { expr := x.call, window := none, sql } := by
  induction h with
  | nil => cases hitem
  | @cons x _ _ _ hx _ ih =>
      cases hx with
      | aggregate _ _ hspelled =>
          rcases List.mem_cons.1 hitem with rfl | hitem
          · exact ⟨x, List.mem_cons_self, _, rfl, hspelled⟩
          · obtain ⟨y, hy, hrest⟩ := ih hitem
            exact ⟨y, List.mem_cons_of_mem _ hy, hrest⟩
      | rank =>
          obtain ⟨y, hy, hrest⟩ := ih hitem
          exact ⟨y, List.mem_cons_of_mem _ hy, hrest⟩

theorem exists_of_mem_ranks (h : List.Forall₂ (Emulates c source groups) calls emulated)
    (hitem : item ∈ emulated.filterMap Compiler.Emulated.rank?) :
    ∃ x ∈ calls, ∃ r : CorrelatedRank, item = { name := x.temporary, value := .rank r } ∧
      r.IsSpelled c source ∧ r.groups = groups ∧ ∀ n ∈ r.key.columns, n ∈ x.call.columns := by
  induction h with
  | nil => cases hitem
  | @cons x _ _ _ hx _ ih =>
      cases hx with
      | aggregate =>
          obtain ⟨y, hy, hrest⟩ := ih hitem
          exact ⟨y, List.mem_cons_of_mem _ hy, hrest⟩
      | @rank _ key _ r _ _ hargs hkey _ hgroups hspelled =>
          rcases List.mem_cons.1 hitem with rfl | hitem
          · refine ⟨x, List.mem_cons_self, r, rfl, hspelled, hgroups, fun n hn => ?_⟩
            rw [hkey, Expr.columns_descending] at hn
            exact Expr.mem_columnsOfArgs.2 ⟨key, by simp [hargs], hn⟩
          · obtain ⟨y, hy, hrest⟩ := ih hitem
            exact ⟨y, List.mem_cons_of_mem _ hy, hrest⟩

end

/-! ## Texts -/

theorem isSpelled_columns (level : Level) (side : Option Side) (columns : List String) :
    ∀ item ∈ columns.map fun n => { name := n, value := .column side n },
      level.IsSpelledItem c item := by
  intro item hitem
  obtain ⟨name, _, rfl⟩ := List.mem_map.1 hitem
  exact True.intro

section

variable {source : String} {groups : List String} {calls : List ExtractedCall}
  {emulated : List Compiler.Emulated}

theorem isSpelled_aggregates (level : Level)
    (h : List.Forall₂ (Emulates c source groups) calls emulated) :
    ∀ item ∈ emulated.filterMap Compiler.Emulated.aggregate?, level.IsSpelledItem c item := by
  intro item hitem
  obtain ⟨x, _, sql, rfl, hspelled⟩ := exists_of_mem_aggregates h hitem
  exact hspelled

theorem isSpelled_ranks {level left : Level} (hside : level.side? .left = some left)
    (hsource : left.render c.dialect = .ok source)
    (h : List.Forall₂ (Emulates c source groups) calls emulated) :
    ∀ item ∈ emulated.filterMap Compiler.Emulated.rank?, level.IsSpelledItem c item := by
  intro item hitem
  obtain ⟨x, _, r, rfl, hspelled, _⟩ := exists_of_mem_ranks h hitem
  exact ⟨left, source, hside, hsource, hspelled⟩

end

theorem IsEmulation.isSpelled {s s' : State} {calls : List ExtractedCall}
    (h : IsEmulation c s calls s') :
    ∀ inner ∈ s'.level.nest, inner ∈ s.level.nest ∨ inner.IsSpelled c := by
  intro inner hinner
  cases h with
  | @ranks source emulated hsource hemulated hnone =>
      rcases List.mem_cons.1 hinner with rfl | hinner
      · refine .inr ⟨?_, by simp [Level.body, Body.identity], by simp [Level.matching?]⟩
        exact List.forall_mem_append.2 ⟨isSpelled_columns _ _ s.columns,
          isSpelled_ranks (by simp [Level.side?]) hsource hemulated⟩
      · exact .inl hinner
  | @joined source name emulated on hsource hemulated hon =>
      rcases List.mem_cons.1 hinner with rfl | hinner
      · refine .inr ⟨?_, by simp [Level.body, Body.identity], ?_⟩
        · refine List.forall_mem_append.2 ⟨List.forall_mem_append.2 ⟨?_, ?_⟩, ?_⟩
          · exact isSpelled_columns _ _ s.columns
          · rw [List.forall_mem_map]
            exact fun _ _ => True.intro
          · exact isSpelled_ranks rfl hsource hemulated
        · rintro _ ⟨⟩
          rwa [Matching.IsSpelled, Compiler.groups_of_matching hon]
      · rcases List.mem_append.1 hinner with hinner | hinner
        · exact .inl hinner
        · rcases List.mem_cons.1 hinner with rfl | hinner
          · refine .inr ⟨?_, by simp [Level.body, Body.summary, Body.identity],
              by simp [Level.matching?]⟩
            exact List.forall_mem_append.2 ⟨isSpelled_columns _ _ s.groups,
              isSpelled_aggregates _ hemulated⟩
          · exact .inl hinner

/-! ## Columns -/

/-- Aggregates and ranks together are the calls, though not in their order. -/
theorem perm_temporaries {source : String} {groups : List String} {calls : List ExtractedCall}
    {emulated : List Compiler.Emulated}
    (h : List.Forall₂ (Emulates c source groups) calls emulated) :
    ((emulated.filterMap Compiler.Emulated.aggregate?).map (·.name) ++
      (emulated.filterMap Compiler.Emulated.rank?).map (·.name)).Perm
        (calls.map (·.temporary)) := by
  induction h with
  | nil => exact .nil
  | cons hx _ ih =>
      cases hx with
      | aggregate => exact ih.cons _
      | rank => exact List.perm_middle.trans (ih.cons _)

theorem IsEmulation.columns {s s' : State} {calls : List ExtractedCall}
    (h : IsEmulation c s calls s') :
    ∃ added, s'.columns = s.columns ++ added ∧ added.Perm (calls.map (·.temporary)) := by
  have hown : (s.columns.map (Item.ofSide .left)).map (·.name) = s.columns := by
    rw [List.map_map]
    exact List.map_id s.columns
  cases h with
  | ranks _ hemulated hnone =>
      refine ⟨_, ?_, perm_temporaries hemulated⟩
      rw [State.columns, Level.outputs, Level.body, Body.outputs, List.map_append, hown, hnone]
      rfl
  | joined _ hemulated _ =>
      refine ⟨_, ?_, perm_temporaries hemulated⟩
      rw [State.columns, Level.outputs, Level.body, Body.outputs, List.map_append, List.map_append,
        hown, List.map_map, List.append_assoc]
      rfl

namespace BuildM

variable {before : List Warning}

theorem ensuresAfter_emulate (source : String) (groups : List String) (x : ExtractedCall) :
    (c.emulate source groups x).EnsuresAfter before fun e w =>
      Emulates c source groups x e ∧ w = before := by
  unfold Compiler.emulate
  dsimp only
  split
  · exact .throw _
  · next form hform =>
      split
      · next haggregate =>
          refine (ensuresAfter_compile c .scalar rfl x.call).bind ?_
          rintro sql _ ⟨hsql, rfl⟩
          exact .pure ⟨.aggregate hform haggregate hsql, rfl⟩
      · split
        · next hranking =>
            split
            · exact .throw _
            · next key rest hargs =>
                refine (ensuresAfter_correlatedRank source _ key.value groups).bind ?_
                rintro r _ ⟨⟨hspelled, hdense, hkey, hdescending, hgroups⟩, rfl⟩
                refine .pure ⟨.rank hform ?_ hargs hkey hdescending hgroups hspelled, rfl⟩
                rw [hdense]
                rcases hranking with rfl | rfl <;> rfl
        · exact .throw _

theorem ensuresAfter_emulateAll (s : State) (calls : List ExtractedCall) :
    (c.emulateAll s calls).EnsuresAfter before fun s' w =>
      IsEmulation c s calls s' ∧ w = before := by
  refine (EnsuresAfter.lift _).bind ?_
  rintro source _ ⟨hsource, rfl⟩
  refine (EnsuresAfter.mapM fun x _ => ensuresAfter_emulate source s.groups x).bind ?_
  rintro emulated _ ⟨hemulated, rfl⟩
  dsimp only
  split
  · next hnone => exact .pure ⟨.ranks hsource hemulated (List.isEmpty_iff.1 hnone), rfl⟩
  · refine .bind_nextSubquery fun name => ?_
    refine (EnsuresAfter.lift _).bind ?_
    rintro on _ ⟨hon, rfl⟩
    exact .pure ⟨.joined hsource hemulated hon, rfl⟩

end BuildM

end SqlChain
