import SqlChain.Proofs.Chain.Statement

/-!
# Rows and labels

The statement that fetches the rows of a grouped chain group by group, and the statement that lists
its groups, begin with the same columns and are ordered by them.
-/

namespace SqlChain

variable {c : Compiler}

/-- The text of a column as a key is its quoted name. -/
theorem quoteIdentifier_of_writesKey {name text : String} (h : c.WritesKey (.column name) text) :
    c.dialect.quoteIdentifier name = .ok text := by
  obtain ⟨warnings, later, hrun⟩ := h
  have hkey : CompileM.Ensures (c.compileKey .scalar (.column name)) fun text =>
      c.dialect.quoteIdentifier name = .ok text := by
    refine .bind (P := fun term => ∃ text, term = .column text ∧
      c.dialect.quoteIdentifier name = .ok text) ?_ ?_
    · exact .bind (.attempt fun text htext => htext) fun text htext => .pure ⟨text, rfl, htext⟩
    · rintro _ ⟨text, rfl, htext⟩
      exact .pure htext
  exact hkey warnings text later hrun

theorem mapM_quoteIdentifier {names texts : List String}
    (h : List.Forall₂ c.WritesKey (names.map Expr.column) texts) :
    names.mapM c.dialect.quoteIdentifier = .ok texts := by
  rw [List.forall₂_map_left_iff] at h
  induction h with
  | nil => rfl
  | cons hname _ ih =>
      rw [List.mapM_cons, quoteIdentifier_of_writesKey hname, ih]
      rfl

/-- A statement is the text of a level with its columns, and behind it an ordering. -/
def Rendered.IsOrdered (r : Rendered) (dialect : Dialect) (keys : List String) : Prop :=
  ∃ (s : State) (select : String), s.columns = r.columns ∧ s.level.render dialect = .ok select ∧
    r.sql = select ++ " ORDER BY " ++ String.intercalate ", " keys

theorem Rendered.Shows.isOrdered {r : Rendered} {s : State} {dropped : List Warning}
    (h : r.Shows c s dropped) (horder : s.order ≠ []) :
    ∃ keys, List.Forall₂ c.WritesKey s.order keys ∧ r.IsOrdered c.dialect keys := by
  obtain ⟨select, keys, hselect, hkeys, hsql⟩ := h.sql
  refine ⟨keys, hkeys, s, select, h.columns.symm, hselect, ?_⟩
  have hsome : keys ≠ [] := by
    rintro rfl
    exact horder (List.forall₂_nil_right_iff.1 hkeys)
  rw [hsql, if_neg (by simpa using hsome), String.append_assoc]

namespace Query

variable {q : Query} {dialect : Dialect} {config : Config} {fetch label : Rendered}

/-- A label statement is ordered by its columns, and there are some. -/
theorem exists_of_render_labels (h : q.render .labels dialect config = .ok label) :
    q.heading.groups ≠ [] ∧ label.columns = q.heading.groups ∧ label.groups = q.heading.groups ∧
      ∃ quoted, q.heading.groups.mapM dialect.quoteIdentifier = .ok quoted ∧
        label.IsOrdered dialect quoted := by
  have hgroups : q.heading.groups ≠ [] := by
    obtain ⟨s, built, shown, between, _, hbuild, hlabels, _⟩ := exists_runs_of_render h
    obtain ⟨hs, hfollows⟩ := build_follows hbuild
    exact (BuildM.ensuresAfter_labels hs hfollows built shown between rfl hlabels).2.1
  obtain ⟨s, _, hfollows, hshows⟩ := exists_of_render h
  have horder : s.order = q.heading.groups.map Expr.column := hfollows.order
  obtain ⟨quoted, hquoted, hordered⟩ := hshows.isOrdered (by simpa [horder] using hgroups)
  rw [horder] at hquoted
  exact ⟨hgroups, hshows.columns.trans hfollows.columns, hshows.groups.trans hfollows.groups,
    quoted, mapM_quoteIdentifier hquoted, hordered⟩

/-- A statement that fetches rows group by group begins with the grouping columns, and its ordering
begins with them. -/
theorem exists_of_render_groups (hgroups : q.heading.groups ≠ [])
    (h : q.render .groups dialect config = .ok fetch) :
    fetch.columns.take q.heading.groups.length = q.heading.groups ∧
      fetch.groups = q.heading.groups ∧
      ∃ quoted later, q.heading.groups.mapM dialect.quoteIdentifier = .ok quoted ∧
        List.Forall₂ (Compiler.builtin dialect config).WritesKey
          (firstOccurrences (q.heading.groups.map Expr.column) q.heading.order) later ∧
        fetch.IsOrdered dialect (quoted ++ later) := by
  obtain ⟨s, _, hfollows, hshows⟩ := exists_of_render h
  have hshown : q.heading.shown .groups = q.heading.grouped := by
    rw [Heading.shown, if_neg (by simpa using hgroups)]
  rw [hshown] at hfollows
  have horder : s.order = q.heading.groups.map Expr.column ++
      firstOccurrences (q.heading.groups.map Expr.column) q.heading.order := hfollows.order
  obtain ⟨keys, hkeys, hordered⟩ := hshows.isOrdered (by simpa [horder] using fun h => absurd h hgroups)
  rw [horder] at hkeys
  have hfirst := List.forall₂_take (q.heading.groups.map Expr.column).length hkeys
  have hlater := List.forall₂_drop (q.heading.groups.map Expr.column).length hkeys
  rw [List.take_left] at hfirst
  rw [List.drop_left] at hlater
  refine ⟨?_, hshows.groups.trans hfollows.groups, _, _, mapM_quoteIdentifier hfirst, hlater, ?_⟩
  · rw [hshows.columns, hfollows.columns]
    exact List.take_left
  · rwa [List.take_append_drop]

/-- The statement that fetches the rows of a grouped chain and the one that lists its groups agree in
their first columns and in their first keys. The keys of the fetched rows go on with those of the
chain that are equal to none before them, and no ordering is dropped for this. -/
theorem fetch_agrees (hfetch : q.render .groups dialect config = .ok fetch)
    (hlabel : q.render .labels dialect config = .ok label) :
    let groups := q.heading.groups
    let kept := firstOccurrences (groups.map Expr.column) q.heading.order
    groups ≠ [] ∧ (fetch.groups = groups ∧ label.groups = groups) ∧
      (fetch.columns.take groups.length = groups ∧ label.columns = groups) ∧
      (∃ quoted later, groups.mapM dialect.quoteIdentifier = .ok quoted ∧
        List.Forall₂ (Compiler.builtin dialect config).WritesKey kept later ∧
        label.IsOrdered dialect quoted ∧ fetch.IsOrdered dialect (quoted ++ later)) ∧
      (kept.Sublist q.heading.order ∧
        (kept.Pairwise (fun key other => key.equal other = false) ∧
          ∀ key ∈ groups.map Expr.column, ∀ other ∈ kept, key.equal other = false) ∧
        ∀ key ∈ q.heading.order, key ∈ kept ∨
          ∃ other ∈ groups.map Expr.column ++ kept, other.equal key = true) ∧
      ∃ s built ordered between compiled,
        (Compiler.build (.builtin dialect config) q).run .start = .ok (s, built) ∧
        (s.groups = groups ∧ s.order = q.heading.order) ∧
        s.groupOrdered.run built = .ok (ordered, between) ∧
        between.dropped = built.dropped ∧ fetch.warnings = built.dropped ++ compiled := by
  intro groups kept
  obtain ⟨hgroups, hlabelColumns, hlabelGroups, quoted, hquoted, hlabelled⟩ :=
    exists_of_render_labels hlabel
  obtain ⟨hcolumns, hfetchGroups, names, later, hnames, hlater, hfetched⟩ :=
    exists_of_render_groups hgroups hfetch
  obtain rfl : names = quoted := Except.ok.inj (hnames.symm.trans hquoted)
  have hkept : kept.Sublist q.heading.order := firstOccurrences_sublist _ _
  refine ⟨hgroups, ⟨hfetchGroups, hlabelGroups⟩, ⟨hcolumns, hlabelColumns⟩,
    ⟨names, later, hquoted, hlater, hlabelled, hfetched⟩,
    ⟨hkept, pairwise_firstOccurrences _ _, fun key hkey => mem_firstOccurrences hkey⟩, ?_⟩
  obtain ⟨s, built, ordered, between, _, hbuild, hordered, _⟩ := exists_runs_of_render hfetch
  obtain ⟨hs, hfollows⟩ := build_follows hbuild
  obtain ⟨_, _, _, hshows⟩ := exists_of_render hfetch
  obtain ⟨compiled, hwarnings⟩ := hshows.warnings
  rw [← hfollows.remarks] at hwarnings
  exact ⟨s, built, ordered, between, compiled, hbuild, ⟨hfollows.groups, hfollows.order⟩, hordered,
    (BuildM.ensuresAfter_groupOrdered hs hfollows built ordered between rfl hordered).2, hwarnings⟩

/-- Of the four keys of an earlier ordering one is the grouping column and one is a repetition. -/
theorem fetch_agrees_windowed :
    ∃ fetch label later, windowed.render .groups .postgres .default = .ok fetch ∧
      windowed.render .labels .postgres .default = .ok label ∧
      fetch.columns.take 1 = ["x"] ∧ label.columns = ["x"] ∧
      label.IsOrdered .postgres ["\"x\""] ∧ fetch.IsOrdered .postgres ("\"x\"" :: later) ∧
      List.Forall₂ (Compiler.builtin .postgres .default).WritesKey
        [.plainCall "desc" [.column "place"], .column "place"] later := by
  obtain ⟨fetch, hfetch⟩ := exists_of_isOk
    (r := windowed.render .groups .postgres .default) (by decide +kernel)
  obtain ⟨label, hlabel⟩ := exists_of_isOk
    (r := windowed.render .labels .postgres .default) (by decide +kernel)
  obtain ⟨_, _, ⟨hcolumns, hlabelColumns⟩, ⟨quoted, later, hquoted, hlater, hlabelled, hfetched⟩, _⟩ :=
    fetch_agrees hfetch hlabel
  obtain rfl : ["\"x\""] = quoted := Except.ok.inj hquoted
  exact ⟨fetch, label, later, hfetch, hlabel, hcolumns, hlabelColumns, hlabelled, hfetched, hlater⟩

end Query

end SqlChain
