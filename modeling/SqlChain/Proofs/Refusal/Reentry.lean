import SqlChain.Proofs.Chain.Remainder
import SqlChain.Proofs.Refusal.Operation

/-!
# Looking up names again

A predicate or a value with window calls is taken apart, and its parts could be filtered by and
assigned like any other, with every reference looked up again. Columns for window calls are there by
then, so that this comes to the same.
-/

namespace SqlChain

variable {c : Compiler} {source : Source} {s : State}

namespace Compiler

/-- Columns for window calls, where a call that is written over a window is assigned like any other
value. -/
def materialiseAgain (c : Compiler) (s : State) (calls : List ExtractedCall) : BuildM State := do
  if !c.hasWindows then c.emulateAll s calls
  else
    let (joined, native) := calls.partition fun x => c.needsJoin x.call
    let s ← if joined.isEmpty then pure s else c.emulateAll s joined
    native.foldlM (fun s x => c.mutate s x.temporary x.call) s

/-- Filtering where what remains of a predicate is a predicate like any other. -/
def filterAgain (c : Compiler) (s : State) (predicate : Expr) : BuildM State := do
  s.checkReferences predicate
  if c.needsWindow predicate then
    let (rest, calls) ← BuildM.extracting c.isWindowCall predicate
    let filtered ← c.filter (← c.materialiseAgain s calls) rest
    selectNames filtered s.columns
  else c.filterRows s predicate

/-- Assigning where what remains of a value is a value like any other. -/
def mutateAgain (c : Compiler) (s : State) (name : String) (e : Expr) : BuildM State := do
  s.checkReferences e
  if !c.needsWindow e then c.assign s false name e
  else if c.hasWindows && !c.needsJoin e then c.assign s true name e
  else
    let (rest, calls) ← BuildM.extracting c.isWindowCall e
    let assigned ← c.mutate (← c.materialiseAgain s calls) name rest
    let columns := s.columns
    selectNames assigned (if columns.contains name then columns else columns ++ [name])

theorem needsWindow_call {x : ExtractedCall}
    (h : c.isWindowCall x.function x.args.length x.window = true) :
    c.needsWindow x.call = true := by
  rw [needsWindow, ExtractedCall.call, Expr.any, isWindowExpr, h, Bool.true_or]

end Compiler

namespace BuildM

theorem checkReferences_bind {β : Type} {e : Expr} (he : ∀ n ∈ e.columns, n ∈ s.columns)
    (f : Unit → BuildM β) : (liftM (s.checkReferences e) : BuildM Unit) >>= f = f ⟨⟩ := by
  rw [State.checkReferences, State.checkNames_of_mem he]
  rfl

theorem filter_eq_filterRows {e : Expr} (he : ∀ n ∈ e.columns, n ∈ s.columns)
    (hwindow : c.needsWindow e = false) : c.filter s e = c.filterRows s e := by
  rw [Compiler.filter, checkReferences_bind he, if_neg (by simp [hwindow])]

theorem mutate_eq_assign {e : Expr} (he : ∀ n ∈ e.columns, n ∈ s.columns) (name : String)
    (hwindow : c.needsWindow e = false) : c.mutate s name e = c.assign s false name e := by
  rw [Compiler.mutate, checkReferences_bind he, if_pos (by simp [hwindow])]

theorem mutate_eq_assign_windowed {x : ExtractedCall} (hx : ∀ n ∈ x.call.columns, n ∈ s.columns)
    (hcall : c.isWindowCall x.function x.args.length x.window = true)
    (hwindows : c.hasWindows = true) (hjoin : c.needsJoin x.call = false) :
    c.mutate s x.temporary x.call = c.assign s true x.temporary x.call := by
  rw [Compiler.mutate, checkReferences_bind hx, if_neg (by simp [Compiler.needsWindow_call hcall]),
    if_pos (by simp [hwindows, hjoin])]

/-- A call that is taken out is over a window, and what remains has no such calls. -/
theorem ensures_extracting_window (c : Compiler) (e : Expr) :
    (extracting c.isWindowCall e).Ensures fun taken =>
      (∀ x ∈ taken.2, c.isWindowCall x.function x.args.length x.window = true) ∧
        c.needsWindow taken.1 = false := by
  rintro p _ _ ⟨⟩
  refine ⟨?_, (c.divides_extract e).remains _⟩
  obtain ⟨calls, hafter, _, hcalls, _⟩ :=
    Expr.takes_extract c.isWindowCall e { issued := p.temporaries, calls := [] }
  have htaken : ((e.extract c.isWindowCall).run
      { issued := p.temporaries, calls := [] }).2.calls = calls :=
    congrArg Extraction.calls hafter
  exact fun x hx => (hcalls x (htaken ▸ hx)).1

theorem foldlM_mutate (hs : Reached c source s) (hwindows : c.hasWindows = true)
    (calls : List ExtractedCall)
    (hcalls : ∀ x ∈ calls, (∀ n ∈ x.call.columns, n ∈ s.columns) ∧
      c.isWindowCall x.function x.args.length x.window = true ∧ c.needsJoin x.call = false) :
    calls.foldlM (fun s x => c.mutate s x.temporary x.call) s =
      calls.foldlM (fun s x => c.assign s true x.temporary x.call) s := by
  induction calls generalizing s with
  | nil => rfl
  | cons x rest ih =>
      obtain ⟨⟨hx, hcall, hjoin⟩, hrest⟩ := List.forall_mem_cons.1 hcalls
      rw [List.foldlM_cons, List.foldlM_cons, mutate_eq_assign_windowed hx hcall hwindows hjoin]
      refine (Ensures.of_unremarked fun _ =>
        ensuresAfter_assign hs true x.temporary hx).bind_congr fun s₁ h₁ => ?_
      refine ih h₁.reached fun y hy => ⟨fun n hn => ?_, (hrest y hy).2⟩
      rw [h₁.columns]
      exact mem_withName ((hrest y hy).1 n hn) x.temporary

theorem materialiseAgain_eq (hs : Reached c source s) {calls : List ExtractedCall}
    (hcalls : ∀ x ∈ calls, ∀ n ∈ x.call.columns, n ∈ s.columns)
    (hwindow : ∀ x ∈ calls, c.isWindowCall x.function x.args.length x.window = true) :
    c.materialiseAgain s calls = c.materialise s calls := by
  by_cases hwindows : c.hasWindows = true
  · have hjoined : ∀ x ∈ calls.filter (fun x => c.needsJoin x.call),
        ∀ n ∈ x.call.columns, n ∈ s.columns := fun x hx => hcalls x (List.mem_filter.1 hx).1
    have hfold : ∀ s₁, Gains c source s
        ((calls.filter fun x => c.needsJoin x.call).map (·.temporary)) s₁ →
        (calls.filter fun x => !c.needsJoin x.call).foldlM
          (fun s x => c.mutate s x.temporary x.call) s₁ =
        (calls.filter fun x => !c.needsJoin x.call).foldlM
          (fun s x => c.assign s true x.temporary x.call) s₁ := by
      intro s₁ h₁
      refine foldlM_mutate h₁.reached hwindows _ fun x hx => ?_
      obtain ⟨hx, hnative⟩ := List.mem_filter.1 hx
      exact ⟨fun n hn => h₁.columns n (List.mem_append_left _ (hcalls x hx n hn)), hwindow x hx,
        by simpa using hnative⟩
    rw [materialise_eq hwindows]
    refine Eq.trans ?_ ((Ensures.of_unremarked fun _ =>
      ensuresAfter_joined hs hjoined).bind_congr hfold)
    rw [Compiler.materialiseAgain, hwindows, List.partition_eq_filter_filter]
    dsimp only
    rw [Bool.not_true, if_neg Bool.false_ne_true]
    split <;> rfl
  · rw [Compiler.materialiseAgain, Compiler.materialise, if_pos (by simpa using hwindows),
      if_pos (by simpa using hwindows)]

/-- What is taken out of an expression and what remains can be gone on with like anything else. -/
theorem extracting_bind_congr (hs : Reached c source s) {e : Expr}
    (he : ∀ n ∈ e.columns, n ∈ s.columns) {f g : Expr → State → BuildM State}
    (hfg : ∀ rest s₁, Reached c source s₁ → (∀ n ∈ rest.columns, n ∈ s₁.columns) →
      c.needsWindow rest = false → f rest s₁ = g rest s₁) :
    (extracting c.isWindowCall e >>= fun taken =>
      c.materialise s taken.2 >>= f taken.1) =
    (extracting c.isWindowCall e >>= fun taken =>
      c.materialiseAgain s taken.2 >>= g taken.1) := by
  have htaken := (ensures_extracting_window c e).and
    (.of_unremarked fun _ => ensuresAfter_extracting c.isWindowCall e)
  refine htaken.bind_congr ?_
  rintro ⟨rest, calls⟩ ⟨⟨hwindow, hneeds⟩, hcalls, hrest⟩
  have hcolumns : ∀ x ∈ calls, ∀ n ∈ x.call.columns, n ∈ s.columns :=
    fun x hx n hn => he n (hcalls x hx n hn)
  rw [materialiseAgain_eq hs hcolumns hwindow]
  refine (Ensures.of_unremarked fun _ => ensuresAfter_materialise hs hcolumns).bind_congr
    fun s₁ h₁ => hfg rest s₁ h₁.reached (fun n hn => ?_) hneeds
  exact h₁.columns n (List.mem_append.2 ((hrest n hn).imp_left (he n)))

theorem ensures_checkReferences (s : State) (e : Expr) :
    (liftM (s.checkReferences e) : BuildM Unit).Ensures fun _ => ∀ n ∈ e.columns, n ∈ s.columns :=
  .of_unremarked fun _ => ensuresAfter_checkReferences e

/-- Looking up the names in the parts of a predicate makes no difference. -/
theorem filter_eq_filterAgain (hs : Reached c source s) (e : Expr) :
    c.filter s e = c.filterAgain s e := by
  refine (ensures_checkReferences s e).bind_congr fun _ he => ?_
  split
  · refine extracting_bind_congr hs he
      (f := fun rest s₁ => c.filterRows s₁ rest >>= (Compiler.selectNames · s.columns))
      (g := fun rest s₁ => c.filter s₁ rest >>= (Compiler.selectNames · s.columns))
      fun rest s₁ _ hrest hneeds => ?_
    rw [filter_eq_filterRows hrest hneeds]
  · rfl

/-- Looking up the names in the parts of a value makes no difference. -/
theorem mutate_eq_mutateAgain (hs : Reached c source s) (name : String) (e : Expr) :
    c.mutate s name e = c.mutateAgain s name e := by
  refine (ensures_checkReferences s e).bind_congr fun _ he => ?_
  split
  · rfl
  split
  · rfl
  refine extracting_bind_congr hs he
    (f := fun rest s₁ => c.assign s₁ false name rest >>= (Compiler.selectNames ·
      (if s.columns.contains name then s.columns else s.columns ++ [name])))
    (g := fun rest s₁ => c.mutate s₁ name rest >>= (Compiler.selectNames ·
      (if s.columns.contains name then s.columns else s.columns ++ [name])))
    fun rest s₁ _ hrest hneeds => ?_
  rw [mutate_eq_assign hrest name hneeds]

end BuildM

end SqlChain
