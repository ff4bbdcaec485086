import SqlChain.Proofs.Chain.Built
import SqlChain.Proofs.Lenient.Step

/-!
# Chains for a compiler that refuses little

Two compilers that build a chain come to states with the same columns, grouping and ordering. What
one of them succeeds in, a lenient one succeeds in as well, operation by operation.
-/

namespace SqlChain

open CompileM

variable {c a : Compiler} {source : Source} {s t : State} {h : Heading} {before : List Warning}

namespace State

/-- The states are the same but for how their rows are come by. -/
structure Alike (s t : State) : Prop where
  columns : s.columns = t.columns
  groups : s.groups = t.groups
  order : s.order = t.order

theorem Follows.alike (hs : s.Follows before h) (ht : t.Follows before h) : s.Alike t :=
  ⟨hs.columns.trans ht.columns.symm, hs.groups.trans ht.groups.symm, hs.order.trans ht.order.symm⟩

theorem Alike.checkNames (h : s.Alike t) : s.checkNames = t.checkNames := by
  funext names
  rw [State.checkNames, State.checkNames, h.columns]

theorem Alike.checkReferences (h : s.Alike t) : s.checkReferences = t.checkReferences := by
  funext e
  rw [State.checkReferences, State.checkReferences, h.checkNames]

theorem Alike.checkAssignments (h : s.Alike t) (assignments : List (String × Expr)) :
    Compiler.checkAssignments s assignments = Compiler.checkAssignments t assignments := by
  induction assignments with
  | nil => rfl
  | cons a rest ih =>
      rw [Compiler.checkAssignments, Compiler.checkAssignments, h.checkReferences, h.groups, ih]

end State

theorem Reaches.alike {columns others : List String} {s' t' : State}
    (hs : Reaches c source s columns s') (ht : Reaches a source t others t') (h : s.Alike t)
    (hcolumns : columns = others) : s'.Alike t' :=
  ⟨by rw [hs.columns, ht.columns, hcolumns], by rw [hs.groups, ht.groups, h.groups],
    by rw [hs.order, ht.order, h.order]⟩

/-- The states that two compilers have come to in the same chain. -/
structure Abreast (c a : Compiler) (source : Source) (s t : State) : Prop where
  left : Reached c source s
  right : Reached a source t
  alike : s.Alike t

namespace BuildM

/-- The second computation succeeds if the first one does, where both begin after the same remarks
about orderings. -/
abbrev LeadsAfter {α β : Type} (m : BuildM α) (before : List Warning) (n : BuildM β) : Prop :=
  m.EnsuresAfter before fun _ _ => n.SucceedsAfter before

/-- Steps that lead to each other, and that keep a relation, do so for as long as they go on. -/
theorem leadsAfter_foldlM {α σ τ : Type} {R : σ → τ → List Warning → Prop} {f : σ → α → BuildM σ}
    {g : τ → α → BuildM τ} (as : List α) {s : σ} {t : τ} (hR : R s t before)
    (hleads : ∀ s t w, R s t w → ∀ a, (f s a).LeadsAfter w (g t a))
    (hkeeps : ∀ s t w, R s t w → ∀ a, (f s a).EnsuresAfter w fun s' w₁ =>
      (g t a).EnsuresAfter w fun t' w₂ => w₁ = w₂ ∧ R s' t' w₁) :
    (as.foldlM f s).LeadsAfter before (as.foldlM g t) := by
  induction as generalizing s t before with
  | nil => exact .pure (.pure t)
  | cons a rest ih =>
      rw [List.foldlM_cons, List.foldlM_cons]
      refine ((hleads s t before hR a).and (hkeeps s t before hR a)).bind ?_
      rintro s' w ⟨hsucceeds, hkept⟩ p x q hp hrun
      refine hsucceeds.bind hkept ?_
      rintro t' _ ⟨rfl, hR'⟩
      exact ih hR' p x q hp hrun

/-! ## Selections -/

theorem succeedsAfter_select {idents : List Ident}
    (h : ∃ u, t.checkNames (idents.map (·.name)) = .ok u) :
    (t.select idents).SucceedsAfter before := by
  refine SucceedsAfter.seq (.lift h) fun _ _ => ?_
  exact SucceedsAfter.seq (fun _ _ => ⟨_, _, rfl⟩) fun _ _ => .pure _

theorem succeedsAfter_selectNames {names : List String} (h : ∀ n ∈ names, n ∈ t.columns) :
    (Compiler.selectNames t names).SucceedsAfter before := by
  refine succeedsAfter_select ⟨⟨⟩, State.checkNames_of_mem ?_⟩
  rw [List.map_map]
  exact fun n hn => h n (by simpa [Ident.ofName] using hn)

theorem leadsAfter_select (hst : s.Alike t) (idents : List Ident) :
    (s.select idents).LeadsAfter before (t.select idents) := by
  refine (EnsuresAfter.lift _).bind ?_
  rintro u _ ⟨hcheck, rfl⟩
  rw [hst.checkNames] at hcheck
  exact (EnsuresAfter.trivial _).imp fun _ _ _ => succeedsAfter_select ⟨u, hcheck⟩

theorem leadsAfter_rename (hst : s.Alike t) (pairs : List (String × String)) :
    (Compiler.rename s pairs).LeadsAfter before (Compiler.rename t pairs) := by
  refine (EnsuresAfter.lift _).bind ?_
  rintro u _ ⟨hcheck, rfl⟩
  rw [hst.checkNames] at hcheck
  rw [hst.columns]
  dsimp only
  split
  · exact .throw _
  · next hrepeated =>
      refine (leadsAfter_select hst _).imp fun _ _ hselect => ?_
      refine SucceedsAfter.bind (.lift ⟨u, hcheck⟩) (.lift _) ?_
      rintro _ _ ⟨_, rfl⟩
      dsimp only
      rw [hrepeated]
      exact hselect

/-! ## Predicates and assignments -/

theorem succeedsAfter_filter (ha : a.IsLenient) (ht : Reached a source t) {e : Expr}
    (hcheck : t.checkReferences e = .ok ⟨⟩)
    (hplain : a.needsWindow e = false → (a.compile .scalar e).Succeeds)
    (hwindow : a.needsWindow e = true → a.Extracts t.groups t.order e) :
    (a.filter t e).SucceedsAfter before := by
  refine SucceedsAfter.seq (.lift ⟨⟨⟩, hcheck⟩) fun _ _ => ?_
  split
  · next hneeds =>
      refine succeedsAfter_extracting ha ht (State.mem_of_checkNames hcheck) (hwindow hneeds)
        (k := fun rest t₁ => do Compiler.selectNames (← a.filterRows t₁ rest) t.columns) ?_
      intro rest names t₁ w h₁ hrest hsucceeds
      refine (succeedsAfter_filterRows t₁ hsucceeds).bind
        (ensuresAfter_filterRows h₁.reached hrest) ?_
      rintro t₂ _ ⟨h₂, _⟩
      refine succeedsAfter_selectNames ?_
      rw [h₂.columns]
      exact fun n hn => h₁.columns n (List.mem_append_left _ hn)
  · next hneeds => exact succeedsAfter_filterRows t (hplain (by simpa using hneeds))

theorem succeedsAfter_mutate (ha : a.IsLenient) (ht : Reached a source t) (name : String) {e : Expr}
    (hcheck : t.checkReferences e = .ok ⟨⟩)
    (hplain : a.needsWindow e = false → (a.compile .scalar e).Succeeds)
    (hnative : a.needsWindow e = true → a.needsJoin e = false →
      (a.compile (.windowed t.groups t.order) e).Succeeds)
    (hjoin : a.needsWindow e = true → a.needsJoin e = true → a.Extracts t.groups t.order e) :
    (a.mutate t name e).SucceedsAfter before := by
  refine SucceedsAfter.seq (.lift ⟨⟨⟩, hcheck⟩) fun _ _ => ?_
  rw [Compiler.hasWindows, ha.windows, Bool.true_and]
  split
  · next hneeds => exact succeedsAfter_assign ht false name (hplain (by simpa using hneeds))
  · next hneeds =>
      have hneeds : a.needsWindow e = true := by simpa using hneeds
      split
      · next hjoins =>
          exact succeedsAfter_assign ht true name (hnative hneeds (by simpa using hjoins))
      · next hjoins =>
          have he := State.mem_of_checkNames hcheck
          refine succeedsAfter_extracting ha ht he (hjoin hneeds (by simpa using hjoins))
            (k := fun rest t₁ => do
              let assigned ← a.assign t₁ false name rest
              let columns := t.columns
              Compiler.selectNames assigned
                (if columns.contains name then columns else columns ++ [name])) ?_
          intro rest names t₁ w h₁ hrest hsucceeds
          refine (succeedsAfter_assign h₁.reached false name hsucceeds).bind
            (ensuresAfter_assign h₁.reached false name hrest) ?_
          rintro t₂ _ ⟨h₂, _⟩
          refine succeedsAfter_selectNames ?_
          rw [h₂.columns]
          intro n hn
          have hn : n ∈ t.columns ∨ n = name := by grind
          rcases hn with hn | rfl
          · exact mem_withName (h₁.columns n (List.mem_append_left _ hn)) name
          · exact self_mem_withName _ n

theorem leadsAfter_filter (ha : a.IsLenientFor c) (h : Abreast c a source s t) (e : Expr) :
    (c.filter s e).LeadsAfter before (a.filter t e) := by
  refine (EnsuresAfter.lift _).bind ?_
  rintro ⟨⟩ _ ⟨hcheck, rfl⟩
  have he := State.mem_of_checkNames hcheck
  rw [h.alike.checkReferences] at hcheck
  split
  · next hneeds =>
      refine (extracts_of_extracting ha h.left he
        (k := fun rest s₁ => do Compiler.selectNames (← c.filterRows s₁ rest) s.columns) ?_).imp ?_
      · intro rest names s₁ w _
        exact (passes_filterRows rest).seq _
      · rintro _ _ ⟨hextracts, _⟩
        rw [h.alike.groups, h.alike.order] at hextracts
        refine succeedsAfter_filter ha.toIsLenient h.right hcheck (fun hnone => ?_) fun _ => hextracts
        rw [ha.needsWindow_eq, hneeds] at hnone
        cases hnone
  · next hneeds =>
      refine (passes_filterRows e).imp fun _ _ hpasses => ?_
      refine succeedsAfter_filter ha.toIsLenient h.right hcheck (fun _ => ?_) fun hneeded => ?_
      · exact (ha.leads_compile e.resembles_refl).succeeds hpasses
      · rw [ha.needsWindow_eq] at hneeded
        exact absurd hneeded hneeds

theorem leadsAfter_mutate (ha : a.IsLenientFor c) (h : Abreast c a source s t) (name : String)
    (e : Expr) : (c.mutate s name e).LeadsAfter before (a.mutate t name e) := by
  refine (EnsuresAfter.lift _).bind ?_
  rintro ⟨⟩ _ ⟨hcheck, rfl⟩
  have he := State.mem_of_checkNames hcheck
  rw [h.alike.checkReferences] at hcheck
  split
  · next hneeds =>
      refine (passes_assign h.left false name e).imp fun _ _ hpasses => ?_
      have hnone : a.needsWindow e = false := by simpa [ha.needsWindow_eq] using hneeds
      refine succeedsAfter_mutate ha.toIsLenient h.right name hcheck (fun _ => ?_) ?_ ?_
      · exact (ha.leads_compile e.resembles_refl).succeeds hpasses
      · simp [hnone]
      · simp [hnone]
  · next hneeds =>
      have hneeds : a.needsWindow e = true := by simpa [ha.needsWindow_eq] using hneeds
      split
      · next hnative =>
          refine (passes_assign h.left true name e).imp fun _ _ hpasses => ?_
          have hnone : a.needsJoin e = false := by
            rw [ha.needsJoin_eq]
            simpa using (Bool.and_eq_true_iff.1 hnative).2
          refine succeedsAfter_mutate ha.toIsLenient h.right name hcheck ?_ (fun _ _ => ?_) ?_
          · simp [hneeds]
          · rw [← h.alike.groups, ← h.alike.order]
            exact (ha.leads_compile_windowed s.groups s.order e).succeeds hpasses
          · simp [hnone]
      · next hnative =>
          refine (extracts_of_extracting ha h.left he
            (k := fun rest s₁ => do
              let assigned ← c.assign s₁ false name rest
              let columns := s.columns
              Compiler.selectNames assigned
                (if columns.contains name then columns else columns ++ [name])) ?_).imp ?_
          · intro rest names s₁ w h₁
            exact (passes_assign h₁.reached false name rest).seq _
          · rintro _ _ ⟨hextracts, hfilled⟩
            rw [h.alike.groups, h.alike.order] at hextracts hfilled
            refine succeedsAfter_mutate ha.toIsLenient h.right name hcheck ?_ (fun _ hnone => hfilled ?_)
              fun _ _ => hextracts
            · simp [hneeds]
            · rw [ha.needsJoin_eq] at hnone
              simpa [hnone] using hnative

/-! ## Summaries -/

theorem leadsAfter_summarise (ha : a.IsLenientFor c) (hst : s.Alike t)
    (assignments : List (String × Expr)) :
    (c.summarise s assignments).LeadsAfter before (a.summarise t assignments) := by
  refine (EnsuresAfter.lift _).bind ?_
  rintro ⟨⟩ _ ⟨hcheck, rfl⟩
  rw [hst.checkAssignments] at hcheck
  refine (EnsuresAfter.trivial _).bind fun s₁ w _ => ?_
  have hitems : ∀ x ∈ assignments, (c.summaryItem x.1 x.2).EnsuresAfter w fun _ w' =>
      (c.compile .scalar x.2).Passes ∧ w' = w := by
    intro x _
    refine (EnsuresAfter.compiling _).bind ?_
    rintro sql _ ⟨⟨warnings, later, hrun⟩, rfl⟩
    exact .pure ⟨⟨warnings, sql, later, hrun⟩, rfl⟩
  refine (EnsuresAfter.mapM hitems).bind ?_
  rintro computed w' ⟨hcomputed, _⟩
  have hpasses : ∀ x ∈ assignments, (c.compile .scalar x.2).Passes :=
    forall_of_forall₂ hcomputed.flip
  refine .pure ?_
  refine SucceedsAfter.seq (.lift ⟨⟨⟩, hcheck⟩) fun _ _ => ?_
  refine SucceedsAfter.seq (succeedsAfter_wrapIf t _) fun _ _ => ?_
  refine SucceedsAfter.seq (.mapM fun x hx _ => ?_) fun _ _ => .pure _
  have hsucceeds := (ha.leads_compile x.2.resembles_refl).succeeds (hpasses x hx)
  exact SucceedsAfter.seq (.compiling hsucceeds) fun _ _ => .pure _

/-! ## Operations -/

theorem leadsAfter_filters (ha : a.IsLenientFor c) (h : Abreast c a source s t)
    (predicates : List Expr) :
    (predicates.foldlM c.filter s).LeadsAfter before (predicates.foldlM a.filter t) := by
  refine leadsAfter_foldlM (R := fun s t _ => Abreast c a source s t) predicates h ?_ ?_
  · exact fun _ _ _ h e => leadsAfter_filter ha h e
  · intro s t w h e
    refine (ensuresAfter_filter h.left e).imp ?_
    rintro s' _ ⟨hs', rfl⟩
    refine (ensuresAfter_filter h.right e).imp ?_
    rintro t' _ ⟨ht', rfl⟩
    exact ⟨rfl, hs'.reached, ht'.reached, hs'.alike ht' h.alike h.alike.columns⟩

theorem leadsAfter_mutates (ha : a.IsLenientFor c) (h : Abreast c a source s t)
    (assignments : List (String × Expr)) :
    (assignments.foldlM (fun s x => c.mutate s x.1 x.2) s).LeadsAfter before
      (assignments.foldlM (fun t x => a.mutate t x.1 x.2) t) := by
  refine leadsAfter_foldlM (R := fun s t _ => Abreast c a source s t) assignments h ?_ ?_
  · exact fun _ _ _ h x => leadsAfter_mutate ha h x.1 x.2
  · intro s t w h x
    refine (ensuresAfter_mutate h.left x.1 x.2).imp ?_
    rintro s' _ ⟨hs', rfl⟩
    refine (ensuresAfter_mutate h.right x.1 x.2).imp ?_
    rintro t' _ ⟨ht', rfl⟩
    exact ⟨rfl, hs'.reached, ht'.reached, hs'.alike ht' h.alike (by rw [h.alike.columns])⟩

theorem leadsAfter_step (ha : a.IsLenientFor c) (h : Abreast c a source s t) (op : Op) :
    (c.step s op).LeadsAfter before (a.step t op) := by
  cases op with
  | select idents => exact leadsAfter_select h.alike idents
  | rename pairs => exact leadsAfter_rename h.alike pairs
  | filter predicates => exact leadsAfter_filters ha h predicates
  | mutate assignments => exact leadsAfter_mutates ha h assignments
  | summarise assignments => exact leadsAfter_summarise ha h.alike assignments
  | arrange keys =>
      refine (EnsuresAfter.lift _).imp ?_
      rintro s' _ ⟨hs', rfl⟩
      rw [Compiler.arrange, h.alike.checkReferences] at hs'
      obtain ⟨u, hcheck, _⟩ := exists_of_bind_eq_ok hs'
      exact .lift (exists_bind_eq_ok ⟨u, hcheck⟩ fun _ => ⟨_, rfl⟩)
  | groupBy keys add =>
      refine (EnsuresAfter.lift _).imp ?_
      rintro s' _ ⟨hs', rfl⟩
      rw [Compiler.groupBy, h.alike.checkNames] at hs'
      obtain ⟨u, hcheck, _⟩ := exists_of_bind_eq_ok hs'
      exact .lift (exists_bind_eq_ok ⟨u, hcheck⟩ fun _ => ⟨_, rfl⟩)
  | ungroup => exact .pure (.pure _)

theorem leadsAfter_build (ha : a.IsLenientFor c) (q : Query) :
    (c.build q).LeadsAfter [] (a.build q) := by
  refine leadsAfter_foldlM (R := fun s t w => Reached c q.source s ∧ Reached a q.source t ∧
    ∃ h, s.Follows w h ∧ t.Follows w h) q.ops ⟨.start, .start, .ofSource q.source, ?_, ?_⟩ ?_ ?_
  · exact ⟨Body.outputs_identity q.source.columns, rfl, rfl, rfl⟩
  · exact ⟨Body.outputs_identity q.source.columns, rfl, rfl, rfl⟩
  · rintro s t w ⟨hs, ht, h, hfs, hft⟩ op
    exact leadsAfter_step ha ⟨hs, ht, hfs.alike hft⟩ op
  · rintro s t w ⟨hs, ht, h, hfs, hft⟩ op
    refine (ensuresAfter_step hs hfs op).imp ?_
    rintro s' w₁ ⟨hs', hfs'⟩
    refine (ensuresAfter_step ht hft op).imp ?_
    rintro t' w₂ ⟨ht', hft'⟩
    obtain rfl : w₁ = w₂ := hfs'.remarks.trans hft'.remarks.symm
    exact ⟨rfl, hs', ht', h.apply op, hfs', hft'⟩

end BuildM

end SqlChain
