import SqlChain.Proofs.Chain.Course

/-!
# Built chains

A chain that is built has come to its state by moves and has the heading that its operations have
by themselves (`ensuresAfter_build`). So has the state of which a statement is made
(`ensuresAfter_arranged`).
-/

namespace SqlChain

variable {c : Compiler} {source : Source} {s : State} {h : Heading} {before : List Warning}

theorem Reaches.follows {columns : List String} {s' : State} (hs' : Reaches c source s columns s')
    (hs : s.Follows before h) : s'.Follows before { h with columns } :=
  ⟨hs'.columns, hs'.groups.trans hs.groups, hs'.order.trans hs.order, hs.remarks⟩

theorem mem_of_forM_checkReferences {keys : List Expr}
    (h : keys.forM s.checkReferences = .ok ⟨⟩) : ∀ key ∈ keys, ∀ n ∈ key.columns, n ∈ s.columns := by
  induction keys with
  | nil => simp
  | cons key rest ih =>
      obtain ⟨⟨⟩, hfirst, h⟩ := exists_of_bind_eq_ok h
      exact List.forall_mem_cons.2 ⟨State.mem_of_checkNames hfirst, ih h⟩

namespace BuildM

/-! ## Operations -/

theorem ensuresAfter_rename (hs : Reached c source s) (hfollows : s.Follows before h)
    (pairs : List (String × String)) :
    (Compiler.rename s pairs).EnsuresAfter before fun s' w =>
      Reached c source s' ∧ s'.Follows w (h.rename pairs) := by
  refine (EnsuresAfter.lift _).bind ?_
  rintro _ _ ⟨_, rfl⟩
  dsimp only
  split
  · exact .throw _
  · have hclosed := hs.isClosed
    have hgroups : ∀ g ∈ h.groups, g ∈ h.columns := by
      rw [← hfollows.groups, ← hfollows.columns]
      exact hclosed.groups
    have horder : ∀ key ∈ h.order, ∀ n ∈ key.columns, n ∈ h.columns := by
      rw [← hfollows.order, ← hfollows.columns]
      exact hclosed.order
    rw [← Heading.select_renamedIdents hgroups horder, hfollows.columns]
    exact ensuresAfter_select hs hfollows _

theorem ensuresAfter_filters (hs : Reached c source s) (hfollows : s.Follows before h)
    (predicates : List Expr) :
    (predicates.foldlM c.filter s).EnsuresAfter before fun s' w =>
      Reached c source s' ∧ s'.Follows w h := by
  have hfold : (predicates.foldlM c.filter s).EnsuresAfter before fun s' w =>
      Reached c source s' ∧ s'.Follows w (predicates.foldl (fun h _ => h) h) := by
    refine EnsuresAfter.foldlM_foldl (R := fun s w h => Reached c source s ∧ s.Follows w h)
      ⟨hs, hfollows⟩ ?_
    rintro s₁ _ h₁ ⟨hs₁, hfollows₁⟩ e _
    refine (ensuresAfter_filter hs₁ e).imp ?_
    rintro s₂ _ ⟨hs₂, rfl⟩
    have hfollows₂ := hs₂.follows hfollows₁
    rw [hfollows₁.columns] at hfollows₂
    exact ⟨hs₂.reached, hfollows₂⟩
  rwa [List.foldl_fixed] at hfold

theorem ensuresAfter_mutates (hs : Reached c source s) (hfollows : s.Follows before h)
    (assignments : List (String × Expr)) :
    (assignments.foldlM (fun s a => c.mutate s a.1 a.2) s).EnsuresAfter before fun s' w =>
      Reached c source s' ∧ s'.Follows w (assignments.foldl (fun h a => h.assign a.1) h) := by
  refine EnsuresAfter.foldlM_foldl (R := fun s w h => Reached c source s ∧ s.Follows w h)
    ⟨hs, hfollows⟩ ?_
  rintro s₁ _ h₁ ⟨hs₁, hfollows₁⟩ a _
  refine (ensuresAfter_mutate hs₁ a.1 a.2).imp ?_
  rintro s₂ _ ⟨hs₂, rfl⟩
  have hfollows₂ := hs₂.follows hfollows₁
  rw [hfollows₁.columns] at hfollows₂
  exact ⟨hs₂.reached, hfollows₂⟩

theorem ensuresAfter_groupBy (hs : Reached c source s) (hfollows : s.Follows before h)
    (keys : List String) (add : Bool) :
    (liftM (Compiler.groupBy s keys add) : BuildM State).EnsuresAfter before fun s' w =>
      Reached c source s' ∧ s'.Follows w (h.apply (.groupBy keys add)) := by
  refine (EnsuresAfter.lift _).imp ?_
  rintro s' _ ⟨hs', rfl⟩
  obtain ⟨⟨⟩, hcheck, hs'⟩ := exists_of_bind_eq_ok hs'
  cases hs'
  refine ⟨hs.move (.regroup fun g hg => ?_), hfollows.columns, ?_, hfollows.order,
    hfollows.remarks⟩
  · rcases Semantics.mem_of_mem_addNew hg with hg | hg
    · cases add with
      | false => cases hg
      | true => exact hs.isClosed.groups g hg
    · exact State.mem_of_checkNames hcheck g hg
  · rw [hfollows.groups]
    rfl

theorem ensuresAfter_arrange (hs : Reached c source s) (hfollows : s.Follows before h)
    (keys : List Expr) :
    (liftM (Compiler.arrange s keys) : BuildM State).EnsuresAfter before fun s' w =>
      Reached c source s' ∧ s'.Follows w (h.apply (.arrange keys)) := by
  refine (EnsuresAfter.lift _).imp ?_
  rintro s' _ ⟨hs', rfl⟩
  obtain ⟨⟨⟩, hcheck, hs'⟩ := exists_of_bind_eq_ok hs'
  cases hs'
  exact ⟨hs.move (.arrange (mem_of_forM_checkReferences hcheck)), hfollows.columns,
    hfollows.groups, rfl, hfollows.remarks⟩

theorem ensuresAfter_step (hs : Reached c source s) (hfollows : s.Follows before h) (op : Op) :
    (c.step s op).EnsuresAfter before fun s' w =>
      Reached c source s' ∧ s'.Follows w (h.apply op) := by
  cases op with
  | select idents => exact ensuresAfter_select hs hfollows idents
  | rename pairs => exact ensuresAfter_rename hs hfollows pairs
  | filter predicates => exact ensuresAfter_filters hs hfollows predicates
  | mutate assignments => exact ensuresAfter_mutates hs hfollows assignments
  | summarise assignments =>
      refine (ensuresAfter_summarise hs assignments).imp ?_
      rintro s' _ ⟨⟨hs', hcolumns, hgroups, horder⟩, rfl⟩
      refine ⟨hs', ?_, hgroups, horder, hfollows.remarks⟩
      rw [hcolumns, hfollows.groups]
      rfl
  | arrange keys => exact ensuresAfter_arrange hs hfollows keys
  | groupBy keys add => exact ensuresAfter_groupBy hs hfollows keys add
  | ungroup =>
      exact .pure ⟨hs.move (.regroup (by simp)), hfollows.columns, rfl, hfollows.order,
        hfollows.remarks⟩

theorem ensuresAfter_build (c : Compiler) (q : Query) :
    (c.build q).EnsuresAfter [] fun s w => Reached c q.source s ∧ s.Follows w q.heading := by
  refine EnsuresAfter.foldlM_foldl
    (R := fun s w h => Reached c q.source s ∧ s.Follows w h) ⟨.start, ?_⟩ ?_
  · exact ⟨Body.outputs_identity q.source.columns, rfl, rfl, rfl⟩
  · rintro s w h ⟨hs, hfollows⟩ op _
    exact ensuresAfter_step hs hfollows op

/-! ## Statements -/

theorem ensuresAfter_groupOrdered (hs : Reached c source s) (hfollows : s.Follows before h) :
    s.groupOrdered.EnsuresAfter before fun s' w =>
      (Reached c source s' ∧ s'.Follows w (h.shown .groups)) ∧ w = before := by
  rw [State.groupOrdered, Heading.shown, ← hfollows.groups]
  split
  · exact .pure ⟨⟨hs, hfollows⟩, rfl⟩
  have hcovered : ∀ n ∈ s.columns, n ∈ s.groups ++ s.columns.filter (!s.groups.contains ·) := by
    intro n hn
    by_cases hgroup : n ∈ s.groups
    · exact List.mem_append_left _ hgroup
    · exact List.mem_append_right _ (List.mem_filter.2 ⟨hn, by simpa using hgroup⟩)
  refine (ensuresAfter_selectNames hs ?_ ?_).bind ?_
  · exact fun g hg => List.mem_append_left _ hg
  · exact fun key hkey n hn => hcovered n (hs.isClosed.order key hkey n hn)
  rintro s' _ ⟨hs', rfl⟩
  dsimp only
  rw [foldl_eq_firstOccurrences s'.order fun _ => rfl]
  refine .pure ⟨⟨hs'.reached.move (.arrange ?_), ?_, hs'.groups.trans hfollows.groups, ?_,
    hfollows.remarks⟩, rfl⟩
  · refine List.forall_mem_append.2 ⟨?_, fun key hkey => ?_⟩
    · rintro _ hkey n hn
      obtain ⟨g, hg, rfl⟩ := List.mem_map.1 hkey
      rw [Expr.columns, List.mem_singleton] at hn
      rw [hs'.columns, hn]
      exact List.mem_append_left _ hg
    · exact hs'.reached.isClosed.order key ((firstOccurrences_sublist _ _).subset hkey)
  · rw [Heading.grouped, ← hfollows.groups, ← hfollows.columns]
    exact hs'.columns
  · rw [Heading.grouped, ← hfollows.groups, ← hfollows.order, ← hs'.order]

theorem ensuresAfter_labels (hs : Reached c source s) (hfollows : s.Follows before h) :
    (c.labels s).EnsuresAfter before fun s' w =>
      (Reached c source s' ∧ s'.Follows w (h.shown .labels)) ∧ h.groups ≠ [] ∧ w = before := by
  rw [Compiler.labels]
  by_cases hgroups : s.groups.isEmpty = true
  · rw [if_pos hgroups]
    exact .throw _
  rw [if_neg hgroups]
  refine (ensuresAfter_summarise hs []).bind ?_
  rintro s' _ ⟨⟨hs', hcolumns, _, _⟩, rfl⟩
  rw [List.map_nil, List.append_nil] at hcolumns
  have harranged : Reached c source { s' with order := s.groups.map Expr.column } := by
    refine hs'.move (.arrange fun _ hkey n hn => ?_)
    obtain ⟨g, hg, rfl⟩ := List.mem_map.1 hkey
    rw [Expr.columns, List.mem_singleton] at hn
    rw [hcolumns, hn]
    exact hg
  have hnone : h.groups ≠ [] := by
    rw [← hfollows.groups]
    simpa using hgroups
  refine .pure ⟨⟨harranged.move (.regroup fun g hg => ?_), ?_, hfollows.groups, ?_,
    hfollows.remarks⟩, hnone, rfl⟩
  · rw [← hcolumns] at hg
    exact hg
  · rw [Heading.shown, Heading.labelled, ← hfollows.groups]
    exact hcolumns
  · rw [Heading.shown, Heading.labelled, ← hfollows.groups]

end BuildM

namespace Query

variable {q : Query}

/-- The first operations of a chain. -/
def upTo (q : Query) (n : Nat) : Query := { q with ops := q.ops.take n }

theorem getElem?_upTo {n m : Nat} {op : Op} (h : (q.upTo n).ops[m]? = some op) :
    q.ops[m]? = some op ∧ (q.upTo n).upTo m = q.upTo m := by
  rw [upTo, List.getElem?_take] at h
  split at h
  · next hm =>
      have htake : (q.ops.take n).take m = q.ops.take m := by
        rw [List.take_take, Nat.min_eq_left (Nat.le_of_lt hm)]
      exact ⟨h, congrArg (fun ops => { q with ops }) htake⟩
  · cases h

/-- The first operations of a chain that is built are built. -/
theorem exists_run_upTo {c : Compiler} {s : State} {later : Progress}
    (hbuild : (c.build q).run .start = .ok (s, later)) (n : Nat) :
    ∃ t between, (c.build (q.upTo n)).run .start = .ok (t, between) := by
  rw [Compiler.build, ← List.take_append_drop n q.ops, List.foldlM_append] at hbuild
  obtain ⟨⟨t, between⟩, hfirst, _⟩ := exists_of_bind_eq_ok hbuild
  exact ⟨t, between, hfirst⟩

end Query

end SqlChain
