import SqlChain.Proofs.Building
import SqlChain.Proofs.Lockstep.Expression
import SqlChain.Proofs.Plan.Value
import SqlChain.Query.Render

/-!
# Statements side by side

Compilers that write alike build a statement in the same steps. What they compile for it are parts
of the expressions that the operations are given, so that the first one is stopped by nothing but a
call that occurs in one of these (`inStep_rendering`).
-/

namespace SqlChain

/-! ## Steps of building -/

namespace BuildM

variable {α β : Type} {Stop : Error → Prop} {P : α → Prop} {Q : β → Prop}

/-- From the same progress, both steps come to the same result and the same progress, and the result
satisfies `P`. If the first one fails, it is stopped or the second one fails as well. -/
def InStep (Stop : Error → Prop) (P : α → Prop) (m n : BuildM α) : Prop :=
  ∀ p, (∃ a q, m.run p = .ok (a, q) ∧ n.run p = .ok (a, q) ∧ P a) ∨
    ∃ e, m.run p = .error e ∧ (Stop e ∨ ∃ other, n.run p = .error other ∧ e.Like other)

namespace InStep

variable {m n : BuildM α} {f g : α → BuildM β}

theorem of_ensures (h : m.Ensures P) : InStep Stop P m m := by
  intro p
  cases hrun : m.run p with
  | error e => exact .inr ⟨e, rfl, .inr ⟨e, rfl, .refl e⟩⟩
  | ok answer => exact .inl ⟨answer.1, answer.2, rfl, rfl, h p answer.1 answer.2 hrun⟩

theorem refl (m : BuildM α) : InStep Stop (fun _ => True) m m := of_ensures (.trivial m)

theorem pure {a : α} (h : P a) : InStep Stop P (pure a) (pure a) := of_ensures (.pure h)

theorem throw (e : Error) : InStep Stop P (throw e) (throw e) := of_ensures (.throw e)

theorem bind (h : InStep Stop P m n) (hfg : ∀ a, P a → InStep Stop Q (f a) (g a)) :
    InStep Stop Q (m >>= f) (n >>= g) := by
  intro p
  rw [StateT.run_bind, StateT.run_bind]
  rcases h p with ⟨a, between, hm, hn, ha⟩ | ⟨e, hm, hstop | ⟨other, hn, hlike⟩⟩
  · rw [hm, hn]
    exact hfg a ha between
  · rw [hm]
    exact .inr ⟨e, rfl, .inl hstop⟩
  · rw [hm, hn]
    exact .inr ⟨e, rfl, .inr ⟨other, rfl, hlike⟩⟩

theorem compiling {m n : CompileM α} (h : CompileM.InStep Stop Eq m n) :
    InStep Stop (fun _ => True) (compiling m) (compiling n) := by
  intro p
  have hends := h p.compiled
  rw [run_compiling, run_compiling]
  generalize m.run.run p.compiled = answer at hends
  generalize n.run.run p.compiled = other at hends
  cases hends with
  | both hlike later =>
      cases hlike with
      | error hlike => exact .inr ⟨_, rfl, .inr ⟨_, rfl, hlike⟩⟩
      | ok hab => exact .inl ⟨_, _, rfl, hab ▸ rfl, True.intro⟩
  | stopped hstop later other => exact .inr ⟨_, rfl, .inl hstop⟩

theorem mapM {f g : α → BuildM β} {as : List α}
    (h : ∀ a ∈ as, InStep Stop (fun _ => True) (f a) (g a)) :
    InStep Stop (fun _ => True) (as.mapM f) (as.mapM g) := by
  induction as with
  | nil => exact .refl _
  | cons a as ih =>
      rw [List.mapM_cons, List.mapM_cons]
      refine (h a List.mem_cons_self).bind fun _ _ => ?_
      exact (ih fun x hx => h x (List.mem_cons_of_mem _ hx)).bind fun _ _ => .refl _

/-- What every step preserves is preserved by all of them. -/
theorem foldlM {f g : β → α → BuildM β} {as : List α} {b : β} (hb : Q b)
    (h : ∀ b, Q b → ∀ a ∈ as, InStep Stop Q (f b a) (g b a)) :
    InStep Stop Q (as.foldlM f b) (as.foldlM g b) := by
  induction as generalizing b with
  | nil => exact .pure hb
  | cons a as ih =>
      rw [List.foldlM_cons, List.foldlM_cons]
      refine (h b hb a List.mem_cons_self).bind fun next hnext => ?_
      exact ih hnext fun b hb x hx => h b hb x (List.mem_cons_of_mem _ hx)

end InStep

end BuildM

/-! ## States -/

/-- All calls in the ordering satisfy `p`. -/
def State.OrderCalls (p : String → Nat → Prop) (s : State) : Prop :=
  ∀ key ∈ s.order, key.CallsAll p

variable {Stop : Error → Prop} {c a : Compiler} {s : State} {p : String → Nat → Prop}

namespace BuildM

theorem orderCalls_wrapIf (hs : s.OrderCalls p) (condition : Bool) :
    (s.wrapIf condition).Ensures (State.OrderCalls p) := by
  rw [State.wrapIf]
  split
  · exact (Ensures.trivial _).bind fun _ _ => .pure hs
  · exact .pure hs

/-- Keys of an ordering are dropped or get other columns. -/
theorem orderCalls_select (hs : s.OrderCalls p) (idents : List Ident) :
    (s.select idents).Ensures (State.OrderCalls p) := by
  refine (Ensures.trivial _).bind fun _ _ => (Ensures.trivial _).bind fun _ _ => .pure ?_
  rw [State.OrderCalls, State.project, List.forall_mem_map]
  exact fun key hkey => Expr.callsAll_mapColumns _ (hs key (List.mem_filter.1 hkey).1)

theorem orderCalls_rename (hs : s.OrderCalls p) (pairs : List (String × String)) :
    (Compiler.rename s pairs).Ensures (State.OrderCalls p) := by
  refine (Ensures.trivial _).bind fun _ _ => ?_
  dsimp only
  split
  · exact .throw _
  · exact orderCalls_select hs _

theorem orderCalls_arrange {keys : List Expr} (hkeys : ∀ key ∈ keys, key.CallsAll p) :
    (liftM (Compiler.arrange s keys) : BuildM State).Ensures (State.OrderCalls p) := by
  refine .lift fun s' hs' => ?_
  obtain ⟨_, _, h⟩ := exists_of_bind_eq_ok hs'
  cases h
  exact hkeys

theorem orderCalls_groupBy (hs : s.OrderCalls p) (keys : List String) (add : Bool) :
    (liftM (Compiler.groupBy s keys add) : BuildM State).Ensures (State.OrderCalls p) := by
  refine .lift fun s' hs' => ?_
  obtain ⟨_, _, h⟩ := exists_of_bind_eq_ok hs'
  cases h
  exact hs

theorem orderCalls_groupOrdered (hs : s.OrderCalls p) :
    s.groupOrdered.Ensures (State.OrderCalls p) := by
  rw [State.groupOrdered]
  split
  · exact .pure hs
  · refine (orderCalls_select hs _).bind fun selected hselected => .pure ?_
    -- the grouping columns come first, and no key is added that was not there
    refine List.foldlRecOn (motive := fun order : List Expr => ∀ key ∈ order, key.CallsAll p)
      selected.order _ ?_ ?_
    · exact List.forall_mem_map.2 fun group _ => Expr.callsAll_column group
    · intro order horder key hkey
      split
      · exact horder
      · exact List.forall_mem_append.2 ⟨horder, List.forall_mem_singleton.2 (hselected key hkey)⟩

theorem callsAll_extracting {e : Expr} (he : e.CallsAll p) (w : String → Nat → Bool → Bool) :
    (extracting w e).Ensures fun taken =>
      taken.1.CallsAll p ∧ ∀ x ∈ taken.2, x.call.CallsAll p := by
  rintro progress taken later hrun
  cases hrun
  obtain ⟨hcalls, hrest⟩ :=
    Expr.keeps_extract (w := w) he { issued := progress.temporaries, calls := [] } nofun
  exact ⟨hrest, hcalls⟩

end BuildM

/-! ## What the compilers have in common -/

namespace Compiler.WritesLike

variable (h : c.WritesLike a)

include h

theorem isWindowCall_eq : c.isWindowCall = a.isWindowCall := by
  funext function arity window
  rw [Compiler.isWindowCall, Compiler.isWindowCall, h.functions]

theorem needsWindow_eq (e : Expr) : c.needsWindow e = a.needsWindow e := by
  have hexpr : c.isWindowExpr = a.isWindowExpr := by
    funext e
    cases e with
    | call => rw [Compiler.isWindowExpr, Compiler.isWindowExpr, h.isWindowCall_eq]
    | _ => rfl
  rw [Compiler.needsWindow, Compiler.needsWindow, hexpr]

theorem needsJoin_eq (e : Expr) : c.needsJoin e = a.needsJoin e := by
  have hexpr : c.isJoinOnly = a.isJoinOnly := by
    funext e
    cases e with
    | call => rw [Compiler.isJoinOnly, Compiler.isJoinOnly, h.functions]
    | _ => rfl
  rw [Compiler.needsJoin, Compiler.needsJoin, hexpr]

theorem hasWindows_eq : c.hasWindows = a.hasWindows := by
  rw [Compiler.hasWindows, Compiler.hasWindows, h.dialect]

theorem matchGroup_eq : c.matchGroup = a.matchGroup := by
  funext left right group
  rw [Compiler.matchGroup, Compiler.matchGroup, h.dialect]

theorem matchGroups_eq (left right : String) (groups : List String) :
    c.matchGroups left right groups = a.matchGroups left right groups := by
  rw [Compiler.matchGroups, Compiler.matchGroups, h.matchGroup_eq]

theorem matching_eq (groups : List String) : c.matching groups = a.matching groups := by
  rw [Compiler.matching, Compiler.matching, h.matchGroups_eq]

end Compiler.WritesLike

/-! ## Operations -/

/-- There is nothing to be said of a window where there is none. -/
theorem Context.forall_of_window {context : Context} (h : context.window = none)
    {P : Window → Prop} : ∀ window ∈ context.window, P window := by
  rw [h]
  nofun

namespace BuildM

section

variable (h : c.WritesLike a) {e : Expr} (he : e.CallsAll (c.Tolerates Stop a))

include h he

theorem inStep_compile_scalar :
    InStep Stop (fun _ => True) (compiling (c.compile .scalar e))
      (compiling (a.compile .scalar e)) :=
  .compiling (inStep_compile h (Context.forall_of_window rfl) (Expr.respells_refl _ he))

theorem inStep_compile_windowed (hs : s.OrderCalls (c.Tolerates Stop a)) :
    InStep Stop (fun _ => True) (compiling (c.compile (.windowed s.groups s.order) e))
      (compiling (a.compile (.windowed s.groups s.order) e)) := by
  refine .compiling (inStep_compile h ?_ (Expr.respells_refl _ he))
  rintro window ⟨⟩
  exact hs

theorem inStep_compileOperand_qualified (table : String) :
    InStep Stop (fun _ => True) (compiling (c.compileOperand (.qualified table) e))
      (compiling (a.compileOperand (.qualified table) e)) :=
  .compiling (inStep_compileOperand h (Context.forall_of_window rfl) (Expr.respells_refl _ he))

theorem inStep_filterRows (hs : s.OrderCalls (c.Tolerates Stop a)) :
    InStep Stop (State.OrderCalls (c.Tolerates Stop a)) (c.filterRows s e) (a.filterRows s e) :=
  (InStep.of_ensures (orderCalls_wrapIf hs _)).bind fun _ hs =>
    (inStep_compile_scalar h he).bind fun _ _ => .pure hs

theorem inStep_assign (hs : s.OrderCalls (c.Tolerates Stop a)) (windowed : Bool) (name : String) :
    InStep Stop (State.OrderCalls (c.Tolerates Stop a)) (c.assign s windowed name e)
      (a.assign s windowed name e) := by
  refine (InStep.of_ensures (orderCalls_wrapIf hs _)).bind fun s hs => ?_
  cases windowed with
  | false => exact (inStep_compile_scalar h he).bind fun _ _ => .pure hs
  | true => exact (inStep_compile_windowed h he hs).bind fun _ _ => .pure hs

theorem inStep_correlatedRank (source : String) (dense : Bool) (groups : List String) :
    InStep Stop (fun _ => True) (c.correlatedRank source dense e groups)
      (a.correlatedRank source dense e groups) := by
  have hkey := Expr.callsAll_descending he
  refine (inStep_compileOperand_qualified h hkey _).bind fun _ _ => ?_
  refine (inStep_compileOperand_qualified h hkey _).bind fun _ _ => ?_
  rw [h.matchGroups_eq, h.dialect]
  exact .refl _

end

section

variable (h : c.WritesLike a)

include h

theorem inStep_emulate {x : ExtractedCall} (hx : x.call.CallsAll (c.Tolerates Stop a))
    (source : String) (groups : List String) :
    InStep Stop (fun _ => True) (c.emulate source groups x) (a.emulate source groups x) := by
  rw [Compiler.emulate, Compiler.emulate, h.functions, h.dialect]
  split
  · exact .throw _
  · split
    · exact (inStep_compile_scalar h hx).bind fun _ _ => .refl _
    · split
      · split
        · exact .throw _
        · next key rest hargs =>
            have hchild : key.value ∈ x.call.children := by
              rw [ExtractedCall.call, Expr.children, hargs]
              exact List.mem_cons_self
            have hkey := Expr.callsAll_of_child hx hchild
            exact (inStep_correlatedRank h hkey source _ groups).bind fun _ _ => .refl _
      · exact .throw _

theorem inStep_emulateAll (hs : s.OrderCalls (c.Tolerates Stop a)) {calls : List ExtractedCall}
    (hcalls : ∀ x ∈ calls, x.call.CallsAll (c.Tolerates Stop a)) :
    InStep Stop (State.OrderCalls (c.Tolerates Stop a)) (c.emulateAll s calls)
      (a.emulateAll s calls) := by
  rw [Compiler.emulateAll, Compiler.emulateAll, h.dialect, h.matching_eq]
  refine (InStep.refl _).bind fun source _ => ?_
  refine (InStep.mapM fun x hx => inStep_emulate h (hcalls x hx) source s.groups).bind
    fun emulated _ => .of_ensures ?_
  dsimp only
  split
  · exact .pure hs
  · exact (Ensures.trivial _).bind fun _ _ => (Ensures.trivial _).bind fun _ _ => .pure hs

theorem inStep_materialise (hs : s.OrderCalls (c.Tolerates Stop a)) {calls : List ExtractedCall}
    (hcalls : ∀ x ∈ calls, x.call.CallsAll (c.Tolerates Stop a)) :
    InStep Stop (State.OrderCalls (c.Tolerates Stop a)) (c.materialise s calls)
      (a.materialise s calls) := by
  rw [Compiler.materialise, Compiler.materialise, h.hasWindows_eq, funext h.needsJoin_eq]
  split
  · exact inStep_emulateAll h hs hcalls
  · rw [List.partition_eq_filter_filter]
    have hfiltered : ∀ keep : ExtractedCall → Bool, ∀ x ∈ calls.filter keep,
        x.call.CallsAll (c.Tolerates Stop a) :=
      fun keep x hx => hcalls x (List.mem_filter.1 hx).1
    have hnative : ∀ s : State, s.OrderCalls (c.Tolerates Stop a) → ∀ keep : ExtractedCall → Bool,
        InStep Stop (State.OrderCalls (c.Tolerates Stop a))
          ((calls.filter keep).foldlM (fun s x => c.assign s true x.temporary x.call) s)
          ((calls.filter keep).foldlM (fun s x => a.assign s true x.temporary x.call) s) :=
      fun s hs keep => .foldlM hs fun s hs x hx =>
        inStep_assign h (hfiltered keep x hx) hs true x.temporary
    dsimp only
    split
    · exact hnative s hs _
    · exact (inStep_emulateAll h hs (hfiltered _)).bind fun s hs => hnative s hs _

theorem inStep_filter (hs : s.OrderCalls (c.Tolerates Stop a)) {e : Expr}
    (he : e.CallsAll (c.Tolerates Stop a)) :
    InStep Stop (State.OrderCalls (c.Tolerates Stop a)) (c.filter s e) (a.filter s e) := by
  refine (InStep.refl _).bind fun _ _ => ?_
  rw [h.needsWindow_eq, h.isWindowCall_eq]
  split
  · refine (InStep.of_ensures (callsAll_extracting he _)).bind fun taken htaken => ?_
    refine (inStep_materialise h hs htaken.2).bind fun s₁ hs₁ => ?_
    refine (inStep_filterRows h htaken.1 hs₁).bind fun s₂ hs₂ => ?_
    exact .of_ensures (orderCalls_select hs₂ _)
  · exact inStep_filterRows h he hs

theorem inStep_mutate (hs : s.OrderCalls (c.Tolerates Stop a)) (name : String) {e : Expr}
    (he : e.CallsAll (c.Tolerates Stop a)) :
    InStep Stop (State.OrderCalls (c.Tolerates Stop a)) (c.mutate s name e)
      (a.mutate s name e) := by
  refine (InStep.refl _).bind fun _ _ => ?_
  rw [h.needsWindow_eq, h.isWindowCall_eq, h.hasWindows_eq, h.needsJoin_eq]
  split
  · exact inStep_assign h he hs false name
  split
  · exact inStep_assign h he hs true name
  · refine (InStep.of_ensures (callsAll_extracting he _)).bind fun taken htaken => ?_
    refine (inStep_materialise h hs htaken.2).bind fun s₁ hs₁ => ?_
    refine (inStep_assign h htaken.1 hs₁ false name).bind fun s₂ hs₂ => ?_
    exact .of_ensures (orderCalls_select hs₂ _)

theorem inStep_summarise (s : State) {assignments : List (String × Expr)}
    (hassignments : ∀ x ∈ assignments, x.2.CallsAll (c.Tolerates Stop a)) :
    InStep Stop (State.OrderCalls (c.Tolerates Stop a)) (c.summarise s assignments)
      (a.summarise s assignments) := by
  refine (InStep.refl _).bind fun _ _ => (InStep.refl _).bind fun _ _ => ?_
  refine (InStep.mapM fun x hx => ?_).bind fun _ _ => .pure nofun
  exact (inStep_compile_scalar h (hassignments x hx)).bind fun _ _ => .refl _

theorem inStep_step (hs : s.OrderCalls (c.Tolerates Stop a)) {op : Op}
    (hop : ∀ e ∈ op.exprs, e.CallsAll (c.Tolerates Stop a)) :
    InStep Stop (State.OrderCalls (c.Tolerates Stop a)) (c.step s op) (a.step s op) := by
  cases op with
  | select idents => exact .of_ensures (orderCalls_select hs idents)
  | rename pairs => exact .of_ensures (orderCalls_rename hs pairs)
  | filter predicates =>
      exact .foldlM hs fun s hs e he => inStep_filter h hs (hop e he)
  | mutate assignments =>
      exact .foldlM hs fun s hs x hx => inStep_mutate h hs x.1 (hop x.2 (List.mem_map_of_mem hx))
  | summarise assignments =>
      exact inStep_summarise h s fun x hx => hop x.2 (List.mem_map_of_mem hx)
  | arrange keys => exact .of_ensures (orderCalls_arrange hop)
  | groupBy keys add => exact .of_ensures (orderCalls_groupBy hs keys add)
  | ungroup => exact .pure hs

/-! ## Statements -/

theorem inStep_arranged (hs : s.OrderCalls (c.Tolerates Stop a)) (mode : Mode) :
    InStep Stop (State.OrderCalls (c.Tolerates Stop a)) (Query.arranged c mode s)
      (Query.arranged a mode s) := by
  cases mode with
  | plain => exact .pure hs
  | groups => exact .of_ensures (orderCalls_groupOrdered hs)
  | labels =>
      rw [Query.arranged, Query.arranged, Compiler.labels, Compiler.labels]
      split
      · exact .throw _
      · refine (inStep_summarise h s (List.forall_mem_nil _)).bind fun _ _ => .pure ?_
        exact List.forall_mem_map.2 fun group _ => Expr.callsAll_column group

theorem inStep_finish (hs : s.OrderCalls (c.Tolerates Stop a)) :
    InStep Stop (fun _ => True) (c.finish s) (a.finish s) := by
  refine (InStep.of_ensures (orderCalls_wrapIf hs _)).bind fun s hs => ?_
  rw [h.dialect]
  refine (InStep.refl _).bind fun _ _ => (InStep.compiling ?_).bind fun _ _ => .refl _
  refine .mapM (List.forall₂_same.2 fun key hkey => ?_)
  exact inStep_compileKey h (Context.forall_of_window rfl) (Expr.respells_refl _ (hs key hkey))

/-- Whatever is asked for, the statements are in step if all calls that an operation is given are
tolerated. -/
theorem inStep_rendering (mode : Mode) {q : Query}
    (hq : ∀ op ∈ q.ops, ∀ e ∈ op.exprs, e.CallsAll (c.Tolerates Stop a)) :
    InStep Stop (fun _ => True) (Query.rendering c mode q) (Query.rendering a mode q) := by
  have hbuild : InStep Stop (State.OrderCalls (c.Tolerates Stop a)) (c.build q) (a.build q) :=
    .foldlM nofun fun s hs op hop => inStep_step h hs (hq op hop)
  exact hbuild.bind fun s hs => (inStep_arranged h hs mode).bind fun s hs => inStep_finish h hs

end

end BuildM

end SqlChain
