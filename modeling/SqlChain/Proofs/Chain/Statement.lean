import SqlChain.Proofs.Chain.Built

/-!
# Rendered statements

A statement is the text of a level with an ordering behind it. Which columns and which grouping it
has can be said before it is rendered, and no name in it stands for nothing.
-/

namespace SqlChain

variable {c : Compiler} {source : Source} {s : State} {before : List Warning}

/-- Whether the text is that of a key at the end of a statement. -/
def Compiler.WritesKey (c : Compiler) (key : Expr) (text : String) : Prop :=
  ∃ warnings later, (c.compileKey .scalar key).run.run warnings = (.ok text, later)

/-- How a statement is put together from the state that it shows. -/
structure Rendered.Shows (r : Rendered) (c : Compiler) (s : State) (dropped : List Warning) :
    Prop where
  columns : r.columns = s.columns
  groups : r.groups = s.groups
  sql : ∃ select keys, s.level.render c.dialect = .ok select ∧
    List.Forall₂ c.WritesKey s.order keys ∧
    r.sql = select ++ if keys.isEmpty then "" else " ORDER BY " ++ String.intercalate ", " keys
  warnings : ∃ compiled, r.warnings = dropped ++ compiled

namespace BuildM

theorem ensuresAfter_compileKeys (c : Compiler) (keys : List Expr) :
    (BuildM.compiling (c.compileKeys .scalar keys)).EnsuresAfter before fun texts w =>
      List.Forall₂ c.WritesKey keys texts ∧ w = before := by
  refine (EnsuresAfter.compiling _).imp ?_
  rintro texts w ⟨⟨warnings, later, hrun⟩, hw⟩
  have hkeys : CompileM.Ensures (keys.mapM (c.compileKey .scalar)) (List.Forall₂ c.WritesKey keys) :=
    .mapM fun _ _ warnings _ later hrun => ⟨warnings, later, hrun⟩
  exact ⟨hkeys warnings texts later hrun, hw⟩

/-- What holds of the level, and of the level as a subquery, holds of the level that is shown. -/
theorem ensuresAfter_finish_reaches (hs : Reached c source s) {Q : Level → Prop}
    (hkept : Q s.level) (hwrapped : ∀ name, Q (s.level.wrap name)) :
    (c.finish s).EnsuresAfter before fun r _ =>
      ∃ s', Reaches c source s s.columns s' ∧ r.Shows c s' before ∧ Q s'.level := by
  refine (ensuresAfter_wrapIf hs (fun _ => hkept) hwrapped).bind ?_
  rintro s' _ ⟨⟨hs', hlevel⟩, rfl⟩
  refine (EnsuresAfter.lift _).bind ?_
  rintro select _ ⟨hselect, rfl⟩
  refine (ensuresAfter_compileKeys c s'.order).bind ?_
  rintro keys _ ⟨hkeys, rfl⟩
  rintro p r _ rfl ⟨⟩
  exact ⟨s', hs', ⟨rfl, rfl, ⟨select, keys, hselect, hkeys, rfl⟩, p.compiled, rfl⟩, hlevel⟩

theorem ensuresAfter_finish (hs : Reached c source s) {h : Heading}
    (hfollows : s.Follows before h) {Q : Level → Prop} (hkept : Q s.level)
    (hwrapped : ∀ name, Q (s.level.wrap name)) :
    (c.finish s).EnsuresAfter before fun r _ => ∃ s', (Reached c source s' ∧
      s'.Follows before h ∧ r.Shows c s' before) ∧ Q s'.level := by
  refine (ensuresAfter_finish_reaches hs hkept hwrapped).imp ?_
  rintro r _ ⟨s', hs', hshows, hlevel⟩
  refine ⟨s', ⟨hs'.reached, ?_, hshows⟩, hlevel⟩
  have hfollows' := hs'.follows hfollows
  rw [hfollows.columns] at hfollows'
  exact hfollows'

theorem ensuresAfter_arranged (mode : Mode) (hs : Reached c source s) {h : Heading}
    (hfollows : s.Follows before h) :
    (Query.arranged c mode s).EnsuresAfter before fun s' w =>
      (Reached c source s' ∧ s'.Follows w (h.shown mode)) ∧ w = before := by
  cases mode with
  | plain => exact .pure ⟨⟨hs, hfollows⟩, rfl⟩
  | groups => exact ensuresAfter_groupOrdered hs hfollows
  | labels =>
      refine (ensuresAfter_labels hs hfollows).imp ?_
      rintro s' w ⟨hs', _, hw⟩
      exact ⟨hs', hw⟩

end BuildM

namespace Query

variable {q : Query} {mode : Mode} {dialect : Dialect} {config : Config} {r : Rendered}

theorem build_follows {s : State} {later : Progress}
    (h : (Compiler.build (.builtin dialect config) q).run .start = .ok (s, later)) :
    Reached (.builtin dialect config) q.source s ∧ s.Follows later.dropped q.heading :=
  BuildM.ensuresAfter_build (.builtin dialect config) q .start s later rfl h

/-- A chain is built, then put into the form that is asked for, and then finished. -/
theorem exists_runs_of_render (h : q.render mode dialect config = .ok r) :
    ∃ s built shown between later,
      (Compiler.build (.builtin dialect config) q).run .start = .ok (s, built) ∧
      (arranged (.builtin dialect config) mode s).run built = .ok (shown, between) ∧
      (Compiler.finish (.builtin dialect config) shown).run between = .ok (r, later) := by
  obtain ⟨⟨rendered, later⟩, hrun, h⟩ := exists_of_bind_eq_ok h
  cases h
  obtain ⟨⟨s, built⟩, hbuild, hrun⟩ := exists_of_bind_eq_ok hrun
  obtain ⟨⟨shown, between⟩, harranged, hfinish⟩ := exists_of_bind_eq_ok hrun
  exact ⟨s, built, shown, between, later, hbuild, harranged, hfinish⟩

/-- What a rendered statement shows, and what is known of its level from the state that the chain
came to. -/
theorem exists_of_render_level {Q : Level → Prop} (h : q.render mode dialect config = .ok r)
    (hlevel : ∀ s built shown between,
      (Compiler.build (.builtin dialect config) q).run .start = .ok (s, built) →
      (arranged (.builtin dialect config) mode s).run built = .ok (shown, between) →
      Q shown.level ∧ ∀ name, Q (shown.level.wrap name)) :
    ∃ s, (Reached (.builtin dialect config) q.source s ∧
      s.Follows (q.heading.dropped.map .orderingDropped) (q.heading.shown mode) ∧
      r.Shows (.builtin dialect config) s (q.heading.dropped.map .orderingDropped)) ∧ Q s.level := by
  obtain ⟨s, built, shown, between, later, hbuild, harranged, hfinish⟩ := exists_runs_of_render h
  obtain ⟨hkept, hwrapped⟩ := hlevel s built shown between hbuild harranged
  obtain ⟨hs, hfollows⟩ := build_follows hbuild
  obtain ⟨⟨hshown, hfollows'⟩, hbetween⟩ :=
    BuildM.ensuresAfter_arranged mode hs hfollows built shown between rfl harranged
  have hfinished := BuildM.ensuresAfter_finish hshown hfollows' hkept hwrapped between r later
    rfl hfinish
  rwa [hbetween, hfollows.remarks] at hfinished

/-- What a rendered statement shows. -/
theorem exists_of_render (h : q.render mode dialect config = .ok r) :
    ∃ s, Reached (.builtin dialect config) q.source s ∧
      s.Follows (q.heading.dropped.map .orderingDropped) (q.heading.shown mode) ∧
      r.Shows (.builtin dialect config) s (q.heading.dropped.map .orderingDropped) := by
  obtain ⟨s, hs, _⟩ := exists_of_render_level h (Q := fun _ => True)
    fun _ _ _ _ _ _ => ⟨.intro, fun _ => .intro⟩
  exact ⟨s, hs⟩

/-! ## Names -/

/-- All names are in order after every operation of a chain, and in every statement. -/
theorem isScoped_render (q : Query) (dialect : Dialect) (config : Config) :
    (∀ n s later, (Compiler.build (.builtin dialect config)
        { q with ops := q.ops.take n }).run .start = .ok (s, later) →
      s.IsScoped (.builtin dialect config) q.source) ∧
    ∀ mode r, q.render mode dialect config = .ok r → ∃ s,
      s.IsScoped (.builtin dialect config) q.source ∧
      r.Shows (.builtin dialect config) s (q.heading.dropped.map .orderingDropped) := by
  constructor
  · intro n s later hbuild
    exact (build_follows hbuild).1.isScoped
  · intro mode r hrender
    obtain ⟨s, hs, _, hshows⟩ := exists_of_render hrender
    exact ⟨s, hs.isScoped, hshows⟩

/-- Columns that swap their names, one that is replaced, window calls of both kinds and a
predicate that needs a window, without windows. -/
def windowed : Query where
  source := { schema := none, name := "t", columns := ["g", "x"] }
  ops := [
    .rename [("g", "x"), ("x", "g")],
    .groupBy ["x"] false,
    .arrange [.plainCall "desc" [.column "g"], .column "x", .column "g", .column "g"],
    .mutate [
      ("n", .binary .add (.plainCall "n" []) (.column "g")),
      ("g", .plainCall "rank" [.column "g"])],
    .filter [.binary .gt (.plainCall "sum" [.column "n"]) (.literal (.int64 2))],
    .select [{ name := "g", newName := some "place" }]]

theorem isScoped_render_windowed :
    ∃ (s : State) (later : Progress) (r : Rendered) (shown : State),
      (Compiler.build (.builtin .mysql57 .default) windowed).run .start = .ok (s, later) ∧
      s.IsScoped (.builtin .mysql57 .default) windowed.source ∧
      windowed.render .groups .mysql57 .default = .ok r ∧
      shown.IsScoped (.builtin .mysql57 .default) windowed.source ∧
      shown.columns = r.columns := by
  obtain ⟨⟨s, later⟩, hbuild⟩ := exists_of_isOk
    (r := (Compiler.build (.builtin .mysql57 .default) windowed).run .start) (by decide +kernel)
  obtain ⟨r, hrender⟩ := exists_of_isOk
    (r := windowed.render .groups .mysql57 .default) (by decide +kernel)
  obtain ⟨hchain, hstatement⟩ := isScoped_render windowed .mysql57 .default
  obtain ⟨shown, hshown, hshows⟩ := hstatement .groups r hrender
  exact ⟨s, later, r, shown, hbuild, hchain 6 s later hbuild, hrender, hshown,
    hshows.columns.symm⟩

end Query

end SqlChain
