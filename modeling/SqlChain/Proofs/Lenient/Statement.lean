import SqlChain.Proofs.Chain.Statement
import SqlChain.Proofs.Lenient.Chain

/-!
# Columns and grouping

Two statements of one chain have the same columns and the same grouping. A chain that can be rendered
at all can be rendered for the default dialect, so that it can be asked for both.
-/

namespace SqlChain

variable {c a : Compiler} {source : Source} {s t : State} {before : List Warning}

namespace BuildM

theorem leadsAfter_finish (ha : a.IsLenientFor c) (h : Abreast c a source s t) :
    (c.finish s).LeadsAfter before (a.finish t) := by
  refine (ensuresAfter_wrapIf_same h.left _).bind ?_
  rintro s₁ _ ⟨_, horder⟩
  refine (EnsuresAfter.trivial _).bind fun _ _ _ => ?_
  refine (EnsuresAfter.compiling _).bind ?_
  rintro keys _ ⟨⟨warnings, later, hrun⟩, _⟩
  rw [horder, h.alike.order] at hrun
  have hkeys := (ha.leads_compileKeys t.order).succeeds ⟨warnings, keys, later, hrun⟩
  refine (EnsuresAfter.trivial _).imp fun _ _ _ => ?_
  refine SucceedsAfter.bind (succeedsAfter_wrapIf t _) (ensuresAfter_wrapIf_same h.right _) ?_
  rintro t₁ _ ⟨_, horder'⟩
  rw [← horder'] at hkeys
  refine SucceedsAfter.seq (.lift (ha.exists_render t₁.level)) fun _ _ => ?_
  exact SucceedsAfter.seq (.compiling hkeys) fun _ _ => fun _ _ => ⟨_, _, rfl⟩

end BuildM

namespace Query

variable {q : Query} {dialect : Dialect} {config : Config} {r : Rendered}

/-- A chain that can be rendered for any dialect can be rendered for the default one. -/
theorem exists_render_default (h : q.render .plain dialect config = .ok r) :
    ∃ r', q.render .plain .ansi .default = .ok r' := by
  obtain ⟨s, built, shown, between, later, hbuild, harranged, hfinish⟩ := exists_runs_of_render h
  obtain ⟨rfl, rfl⟩ : s = shown ∧ built = between := by
    cases harranged
    exact ⟨rfl, rfl⟩
  have ha := Compiler.isLenientFor_default dialect config
  obtain ⟨t, built', hbuild'⟩ := BuildM.leadsAfter_build ha q .start s built rfl hbuild .start rfl
  obtain ⟨hs, hfollows⟩ := build_follows hbuild
  obtain ⟨ht, hfollows'⟩ := build_follows hbuild'
  have hdropped : built'.dropped = built.dropped := hfollows'.remarks.trans hfollows.remarks.symm
  rw [hdropped] at hfollows'
  obtain ⟨r', later', hfinish'⟩ := BuildM.leadsAfter_finish ha ⟨hs, ht, hfollows.alike hfollows'⟩
    built r later rfl hfinish built' hdropped
  have hrun : (rendering (.builtin .ansi .default) .plain q).run .start = .ok (r', later') := by
    rw [rendering, StateT.run_bind, hbuild']
    exact hfinish'
  refine ⟨r', ?_⟩
  rw [Query.render, hrun]
  rfl

/-! ## Columns and grouping -/

/-- A rendered statement has the heading of its chain. -/
theorem heading_of_render {mode : Mode} (h : q.render mode dialect config = .ok r) :
    r.columns = (q.heading.shown mode).columns ∧ r.groups = q.heading.groups := by
  obtain ⟨s, _, hfollows, hshows⟩ := exists_of_render h
  refine ⟨hshows.columns.trans hfollows.columns, ?_⟩
  rw [hshows.groups, hfollows.groups, Heading.groups_shown]

/-- Statements of one chain have the columns and the grouping that its operations come to step by
step, whatever they are rendered for. So does the chain if it is asked for them, which it can be if
it can be rendered at all. A list of groups alone does not tell, since the ordering of the chain is
not compiled for it. -/
theorem columns_of_render (q : Query) (mode : Mode) {dialect₁ dialect₂ : Dialect}
    {config₁ config₂ : Config} {r₁ r₂ : Rendered}
    (h₁ : q.render mode dialect₁ config₁ = .ok r₁) (h₂ : q.render mode dialect₂ config₂ = .ok r₂) :
    (r₁.columns = r₂.columns ∧ r₁.groups = r₂.groups) ∧
      (r₁.columns = (q.heading.shown mode).columns ∧ r₁.groups = q.heading.groups) ∧
      (mode = .plain → q.columns = .ok r₁.columns ∧ q.groups = .ok r₁.groups) ∧
      (∀ columns, q.columns = .ok columns → columns = q.heading.columns) ∧
      ∀ groups, q.groups = .ok groups → groups = q.heading.groups := by
  have hr₁ := heading_of_render h₁
  have hr₂ := heading_of_render h₂
  refine ⟨⟨hr₁.1.trans hr₂.1.symm, hr₁.2.trans hr₂.2.symm⟩, hr₁, ?_, ?_, ?_⟩
  · rintro rfl
    obtain ⟨r, hr⟩ := exists_render_default h₁
    rw [hr₁.1, hr₁.2, Query.columns, Query.groups, hr]
    exact ⟨congrArg Except.ok (heading_of_render hr).1, congrArg Except.ok (heading_of_render hr).2⟩
  · intro columns hcolumns
    obtain ⟨r, hr, hcolumns⟩ := exists_of_bind_eq_ok hcolumns
    cases hcolumns
    exact (heading_of_render hr).1
  · intro groups hgroups
    obtain ⟨r, hr, hgroups⟩ := exists_of_bind_eq_ok hgroups
    cases hgroups
    exact (heading_of_render hr).2

/-- The same chain with windows and without them. -/
theorem columns_of_render_windowed :
    ∃ r₁ r₂, windowed.render .plain .mysql57 { Config.default with strictSql := true } = .ok r₁ ∧
      windowed.render .plain .postgres .default = .ok r₂ ∧
      r₁.columns = ["x", "place"] ∧ r₂.columns = ["x", "place"] ∧
      r₁.groups = ["x"] ∧ r₂.groups = ["x"] ∧
      windowed.columns = .ok ["x", "place"] ∧ windowed.groups = .ok ["x"] := by
  obtain ⟨r₁, h₁⟩ := exists_of_isOk
    (r := windowed.render .plain .mysql57 { Config.default with strictSql := true })
    (by decide +kernel)
  obtain ⟨r₂, h₂⟩ := exists_of_isOk
    (r := windowed.render .plain .postgres .default) (by decide +kernel)
  obtain ⟨⟨hcolumns, hgroups⟩, ⟨hshown, hgrouped⟩, hasked, _, _⟩ :=
    columns_of_render windowed .plain h₁ h₂
  have hheading : (windowed.heading.shown .plain).columns = ["x", "place"] ∧
      windowed.heading.groups = ["x"] := by decide
  rw [hheading.1] at hshown
  rw [hheading.2] at hgrouped
  obtain ⟨haskedColumns, haskedGroups⟩ := hasked rfl
  rw [hshown] at haskedColumns
  rw [hgrouped] at haskedGroups
  exact ⟨r₁, r₂, h₁, h₂, hshown, hcolumns ▸ hshown, hgrouped, hgroups ▸ hgrouped,
    haskedColumns, haskedGroups⟩

end Query

end SqlChain
