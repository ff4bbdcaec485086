import SqlChain.Proofs.Chain.Built
import SqlChain.Proofs.Refusal.Compile
import SqlChain.Proofs.Refusal.Kind

/-!
# What operations refuse

An operation looks up every name that it refers to before it does anything else, and refuses the
first one that is missing. Where all of them are there, it may fail for other reasons, but not for
names: neither for those of columns that it adds for itself, nor in what it compiles.
-/

namespace SqlChain

variable {c : Compiler} {source : Source} {s : State} {h : Heading} {before : List Warning}

/-- Whatever a compiler refuses to write, it is not because of missing columns. -/
theorem Compiler.LooksAtAll.failsOnly (hc : c.LooksAtAll) : c.FailsOnly Error.NamesKnown where
  identifier := fun _ _ _ => rfl
  unsupported := fun _ _ => rfl
  unranked := fun _ _ _ _ => rfl
  compile := fun context e => (grants_compile hc context e).imp fun _ => True.intro
  operand := fun context e => grants_compileOperand hc context e
  keys := fun context keys => grants_compileKeys hc context keys

theorem failsWith_checkNames {names : List String} (hnames : ∀ n ∈ names, n ∈ s.columns) :
    FailsWith Error.NamesKnown (s.checkNames names) := by
  rw [State.checkNames_of_mem hnames]
  exact .ok _

namespace BuildM

theorem fails_selectNames {names : List String} (hnames : ∀ n ∈ names, n ∈ s.columns) :
    (Compiler.selectNames s names).Fails Error.NamesKnown := by
  refine fails_select (failsWith_checkNames ?_)
  rw [List.map_map]
  exact List.forall_mem_map.2 hnames

theorem fails_filter (hc : c.LooksAtAll) (hs : Reached c source s) {e : Expr}
    (he : ∀ n ∈ e.columns, n ∈ s.columns) : (c.filter s e).Fails Error.NamesKnown := by
  rw [filter_eq]
  refine (Fails.lift (failsWith_checkNames he)).bind fun _ => ?_
  split
  · refine (fails_placing hc.failsOnly s e).bind_of
      (.of_unremarked fun _ => ensuresAfter_placing hs he) ?_
    rintro ⟨rest, s₁⟩ ⟨⟨added, h₁⟩, hrest⟩
    refine (fails_filterRows hc.failsOnly s₁ rest).bind_of (.of_unremarked fun _ =>
      ensuresAfter_filterRows h₁.reached hrest) fun s₂ h₂ => ?_
    refine fails_selectNames fun n hn => ?_
    rw [h₂.columns]
    exact h₁.columns n (List.mem_append_left _ hn)
  · exact fails_filterRows hc.failsOnly s e

theorem fails_mutate (hc : c.LooksAtAll) (hs : Reached c source s) (name : String) {e : Expr}
    (he : ∀ n ∈ e.columns, n ∈ s.columns) : (c.mutate s name e).Fails Error.NamesKnown := by
  rw [mutate_eq]
  refine (Fails.lift (failsWith_checkNames he)).bind fun _ => ?_
  split
  · exact fails_assign hc.failsOnly s false name e
  split
  · exact fails_assign hc.failsOnly s true name e
  refine (fails_placing hc.failsOnly s e).bind_of
    (.of_unremarked fun _ => ensuresAfter_placing hs he) ?_
  rintro ⟨rest, s₁⟩ ⟨⟨added, h₁⟩, hrest⟩
  refine (fails_assign hc.failsOnly s₁ false name rest).bind_of (.of_unremarked fun _ =>
    ensuresAfter_assign h₁.reached false name hrest) fun s₂ h₂ => ?_
  refine fails_selectNames fun n hn => ?_
  rw [h₂.columns, mem_withName_iff]
  exact (mem_withName_iff.1 hn).imp_left fun hn => h₁.columns n (List.mem_append_left _ hn)

/-! ## Statements -/

theorem fails_arranged (hc : c.LooksAtAll) (hs : Reached c source s) (mode : Mode) :
    (Query.arranged c mode s).Fails Error.NamesKnown := by
  cases mode with
  | plain => exact .pure s
  | groups =>
      rw [Query.arranged, State.groupOrdered]
      split
      · exact .pure s
      · refine (fails_selectNames (List.forall_mem_append.2 ⟨hs.isClosed.groups, ?_⟩)).bind
          fun _ => .pure _
        exact fun n hn => (List.mem_filter.1 hn).1
  | labels =>
      rw [Query.arranged, Compiler.labels]
      by_cases hgroups : s.groups.isEmpty = true
      · rw [if_pos hgroups]
        exact .throw rfl
      · rw [if_neg hgroups]
        exact (fails_summarise hc.failsOnly (fun _ => rfl) s (by simp)).bind fun _ => .pure _

end BuildM

end SqlChain
