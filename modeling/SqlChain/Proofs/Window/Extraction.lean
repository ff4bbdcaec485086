import SqlChain.Proofs.Chain.Restoring
import SqlChain.Proofs.Refusal.Reentry

/-!
# Extraction of window calls is exact

Wherever a builder has got to, what it takes out of an expression are the outermost calls over a
window, under names that it has not handed out before, and nothing over a window remains. The parts
of a predicate or a value are filtered by and assigned once more. As nothing over a window remains
by then, this goes no deeper, and any bound on the depth of at least two is as good as another.
-/

namespace SqlChain

/-! ## Names -/

/-- The name of a temporary column that a builder has handed out. -/
def Progress.Issued (p : Progress) (name : String) : Prop :=
  ∃ n, 1 ≤ n ∧ n ≤ p.temporaries ∧ name = temporaryName n

section

variable {p : Progress} {calls : List ExtractedCall} (h : calls.map (·.temporary) =
  (List.range' (p.temporaries + 1) calls.length).map temporaryName)

include h

theorem nodup_temporaries : (calls.map (·.temporary)).Nodup := by
  rw [h]
  exact List.Nodup.map temporaryName_injective (List.nodup_range' 1)

theorem mem_temporaries_iff {name : String} : name ∈ calls.map (·.temporary) ↔
    ∃ n, p.temporaries < n ∧ n ≤ p.temporaries + calls.length ∧ name = temporaryName n := by
  rw [h, List.mem_map]
  simp only [List.mem_range'_1]
  constructor
  · rintro ⟨n, ⟨hfrom, hto⟩, rfl⟩
    exact ⟨n, hfrom, by omega, rfl⟩
  · rintro ⟨n, hfrom, hto, rfl⟩
    exact ⟨n, ⟨hfrom, by omega⟩, rfl⟩

theorem not_issued_temporary {x : ExtractedCall} (hx : x ∈ calls) : ¬ p.Issued x.temporary := by
  rintro ⟨n, -, hn, hname⟩
  obtain ⟨m, hm, -, hname'⟩ := (mem_temporaries_iff h).1 (List.mem_map_of_mem hx)
  have heq := temporaryName_injective (hname.symm.trans hname')
  omega

theorem issued_iff (name : String) :
    Progress.Issued { p with temporaries := p.temporaries + calls.length } name ↔
      p.Issued name ∨ name ∈ calls.map (·.temporary) := by
  rw [mem_temporaries_iff h]
  constructor
  · rintro ⟨n, hone, hn, hname⟩
    by_cases hle : n ≤ p.temporaries
    · exact .inl ⟨n, hone, hle, hname⟩
    · exact .inr ⟨n, by omega, hn, hname⟩
  · rintro (⟨n, hone, hn, hname⟩ | ⟨n, hone, hn, hname⟩)
    · exact ⟨n, hone, Nat.le_add_right_of_le hn, hname⟩
    · exact ⟨n, by omega, hn, hname⟩

end

/-! ## Calls -/

/-- The call that a temporary column stands for; any other column stands for itself. -/
def callFor (calls : List ExtractedCall) (name : String) : Expr :=
  ((calls.find? (·.temporary == name)).map (·.call)).getD (.column name)

theorem callFor_temporary {calls : List ExtractedCall} (h : (calls.map (·.temporary)).Nodup)
    {x : ExtractedCall} (hx : x ∈ calls) : callFor calls x.temporary = x.call := by
  rw [callFor, find?_key_eq ExtractedCall.temporary h hx]
  rfl

theorem callFor_of_notMem {calls : List ExtractedCall} {name : String}
    (h : name ∉ calls.map (·.temporary)) : callFor calls name = .column name := by
  have hnone : calls.find? (·.temporary == name) = none :=
    List.find?_eq_none.2 fun x hx => by
      have hne : x.temporary ≠ name := fun heq => h (heq ▸ List.mem_map_of_mem hx)
      simpa using hne
  rw [callFor, hnone]
  rfl

theorem columns_callFor {calls : List ExtractedCall} (hnodup : (calls.map (·.temporary)).Nodup)
    {rest : Expr} (hoccurring : ∀ x ∈ calls, x.temporary ∈ rest.columns) (n : String) :
    n ∈ (rest.substitute (callFor calls)).columns ↔
      n ∈ rest.columns ∧ n ∉ calls.map (·.temporary) ∨ ∃ x ∈ calls, n ∈ x.call.columns := by
  rw [Expr.columns_substitute, List.mem_flatMap]
  constructor
  · rintro ⟨m, hm, hn⟩
    by_cases htemporary : m ∈ calls.map (·.temporary)
    · obtain ⟨x, hx, rfl⟩ := List.mem_map.1 htemporary
      rw [callFor_temporary hnodup hx] at hn
      exact .inr ⟨x, hx, hn⟩
    · rw [callFor_of_notMem htemporary] at hn
      cases List.mem_singleton.1 hn
      exact .inl ⟨hm, htemporary⟩
  · rintro (⟨hn, htemporary⟩ | ⟨x, hx, hn⟩)
    · refine ⟨n, hn, ?_⟩
      rw [callFor_of_notMem htemporary]
      exact List.mem_singleton.2 rfl
    · refine ⟨x.temporary, hoccurring x hx, ?_⟩
      rwa [callFor_temporary hnodup hx]

/-! ## Extraction -/

/-- A builder that had got to `p` takes `calls` out of an expression, and `rest` remains. -/
structure TakesOut (c : Compiler) (e : Expr) (p later : Progress) (rest : Expr)
    (calls : List ExtractedCall) : Prop where
  remains : c.needsWindow rest = false
  accepted : ∀ x ∈ calls, c.isWindowCall x.function x.args.length x.window = true
  outermost : calls.map (·.call) = e.outermost c.isWindowCall
  temporaries : calls.map (·.temporary) =
    (List.range' (p.temporaries + 1) calls.length).map temporaryName
  nodup : (calls.map (·.temporary)).Nodup
  fresh : ∀ x ∈ calls, ¬ p.Issued x.temporary
  issued : ∀ name, later.Issued name ↔ p.Issued name ∨ name ∈ calls.map (·.temporary)
  /-- The temporary columns stand in the order of the calls. -/
  occurring : (∀ x ∈ calls, x.temporary ∉ e.columns) →
    rest.columns.filter (calls.map (·.temporary)).contains = calls.map (·.temporary)
  restored : (∀ x ∈ calls, x.temporary ∉ e.columns) → rest.substitute (callFor calls) = e
  columns : (∀ x ∈ calls, x.temporary ∉ e.columns) → ∀ n, n ∈ e.columns ↔
    n ∈ rest.columns ∧ n ∉ calls.map (·.temporary) ∨ ∃ x ∈ calls, n ∈ x.call.columns

theorem BuildM.run_extracting (q : String → Nat → Bool → Bool) (e : Expr) (p : Progress) :
    (BuildM.extracting q e).run p =
      .ok ((((e.extract q).run { issued := p.temporaries, calls := [] }).1,
          ((e.extract q).run { issued := p.temporaries, calls := [] }).2.calls),
        { p with
          temporaries := ((e.extract q).run { issued := p.temporaries, calls := [] }).2.issued }) :=
  rfl

namespace Compiler

variable (c : Compiler)

/-- Either an expression is a call over a window, or one looks for such calls in its children. -/
theorem outermost_eq (e : Expr) : e.outermost c.isWindowCall =
    if c.isWindowExpr e then [e] else e.children.flatMap (·.outermost c.isWindowCall) := by
  have hargs : ∀ args : List (Arg Expr), Expr.outermostOfArgs c.isWindowCall args =
      (args.map Arg.value).flatMap (·.outermost c.isWindowCall) := by
    intro args
    induction args with
    | nil => rfl
    | cons arg args ih => simp [Expr.outermostOfArgs, ih]
  have hlist : ∀ es : List Expr, Expr.outermostOfList c.isWindowCall es =
      es.flatMap (·.outermost c.isWindowCall) := by
    intro es
    induction es with
    | nil => rfl
    | cons e es ih => simp [Expr.outermostOfList, ih]
  cases e with
  | call function args window =>
      rw [Expr.outermost, hargs]
      rfl
  | conditional condition value otherwise =>
      cases otherwise <;> simp [Expr.outermost, isWindowExpr, Expr.children]
  | column | literal | inList | inExpr | binary | unary =>
      simp [Expr.outermost, isWindowExpr, Expr.children, hlist]

theorem takesOut_extracting (e : Expr) (p : Progress) :
    ∃ rest calls, (BuildM.extracting c.isWindowCall e).run p =
        .ok ((rest, calls), { p with temporaries := p.temporaries + calls.length }) ∧
      TakesOut c e p { p with temporaries := p.temporaries + calls.length } rest calls := by
  obtain ⟨calls, hafter, hnames, hcalls, -⟩ :=
    Expr.takes_extract c.isWindowCall e { issued := p.temporaries, calls := [] }
  obtain ⟨taken, htaken, houtermost, hback, hfilter⟩ :=
    Expr.restores_extract c.isWindowCall e { issued := p.temporaries, calls := [] }
  have hremains := (c.divides_extract e).remains { issued := p.temporaries, calls := [] }
  obtain rfl : calls = taken := by
    rw [hafter] at htaken
    exact htaken
  have hrun : (BuildM.extracting c.isWindowCall e).run p =
      .ok ((((e.extract c.isWindowCall).run { issued := p.temporaries, calls := [] }).1, calls),
        { p with temporaries := p.temporaries + calls.length }) := by
    rw [BuildM.run_extracting, hafter]
    rfl
  generalize ((e.extract c.isWindowCall).run { issued := p.temporaries, calls := [] }).1 = rest at *
  have hnodup := nodup_temporaries hnames
  have hkept : (∀ x ∈ calls, x.temporary ∉ e.columns) →
      ∀ n ∈ e.columns, n ∉ calls.map (·.temporary) := by
    intro hnew n hn hmem
    obtain ⟨x, hx, rfl⟩ := List.mem_map.1 hmem
    exact hnew x hx hn
  have hoccurring : (∀ x ∈ calls, x.temporary ∉ e.columns) →
      rest.columns.filter (calls.map (·.temporary)).contains = calls.map (·.temporary) := by
    intro hnew
    refine hfilter _ (fun n hn => ?_) fun x hx => ?_
    · simpa using hkept hnew n hn
    · simpa using ⟨x, hx, rfl⟩
  have hrestored : (∀ x ∈ calls, x.temporary ∉ e.columns) →
      rest.substitute (callFor calls) = e := by
    intro hnew
    exact hback _ (fun n hn => callFor_of_notMem (hkept hnew n hn))
      fun x hx => callFor_temporary hnodup hx
  refine ⟨rest, calls, hrun, hremains, fun x hx => (hcalls x hx).1, houtermost, hnames, hnodup,
    fun x hx => not_issued_temporary hnames hx, issued_iff hnames, hoccurring, hrestored, ?_⟩
  intro hnew n
  have hthere : ∀ x ∈ calls, x.temporary ∈ rest.columns := by
    intro x hx
    have hmem : x.temporary ∈ calls.map (·.temporary) := List.mem_map_of_mem hx
    rw [← hoccurring hnew] at hmem
    exact (List.mem_filter.1 hmem).1
  rw [← columns_callFor hnodup hthere, hrestored hnew]

end Compiler

/-! ## Going on with the parts -/

namespace Compiler

/-- Columns for window calls, where `mutate` assigns those that are written over a window. -/
def materialiseBy (c : Compiler) (mutate : State → String → Expr → BuildM State) (s : State)
    (calls : List ExtractedCall) : BuildM State := do
  if !c.hasWindows then c.emulateAll s calls
  else
    let (joined, native) := calls.partition fun x => c.needsJoin x.call
    let s ← if joined.isEmpty then pure s else c.emulateAll s joined
    native.foldlM (fun s x => mutate s x.temporary x.call) s

/-- Assigning, where all parts of a value are assigned in the same way. Where this would go deeper
than the bound there is `stop` instead. -/
def mutateWithin (c : Compiler) (stop : BuildM State) : Nat → State → String → Expr → BuildM State
  | 0, _, _, _ => stop
  | depth + 1, s, name, e => do
    s.checkReferences e
    if !c.needsWindow e then c.assign s false name e
    else if c.hasWindows && !c.needsJoin e then c.assign s true name e
    else
      let (rest, calls) ← BuildM.extracting c.isWindowCall e
      let gained ← c.materialiseBy (c.mutateWithin stop depth) s calls
      let assigned ← c.mutateWithin stop depth gained name rest
      let columns := s.columns
      selectNames assigned (if columns.contains name then columns else columns ++ [name])

/-- Filtering, where what remains of a predicate is filtered by in the same way. -/
def filterWithin (c : Compiler) (stop : BuildM State) : Nat → State → Expr → BuildM State
  | 0, _, _ => stop
  | depth + 1, s, predicate => do
    s.checkReferences predicate
    if c.needsWindow predicate then
      let (rest, calls) ← BuildM.extracting c.isWindowCall predicate
      let gained ← c.materialiseBy (c.mutateWithin stop depth) s calls
      let filtered ← c.filterWithin stop depth gained rest
      selectNames filtered s.columns
    else c.filterRows s predicate

variable {c : Compiler} (stop : BuildM State) (depth : Nat)

theorem filterWithin_of_not_needsWindow {e : Expr} (h : c.needsWindow e = false) (s : State) :
    c.filterWithin stop (depth + 1) s e = c.filter s e := by
  rw [filterWithin, filter, h]
  rfl

theorem mutateWithin_of_not_needsWindow {e : Expr} (h : c.needsWindow e = false) (s : State)
    (name : String) : c.mutateWithin stop (depth + 1) s name e = c.mutate s name e := by
  rw [mutateWithin, mutate, h]
  rfl

theorem mutateWithin_of_native {e : Expr} (hwindow : c.needsWindow e = true)
    (hnative : (c.hasWindows && !c.needsJoin e) = true) (s : State) (name : String) :
    c.mutateWithin stop (depth + 1) s name e = c.mutate s name e := by
  rw [mutateWithin, mutate, hwindow, hnative]
  rfl

/-- A call that is taken out is assigned without taking it apart again. -/
theorem materialiseBy_mutateWithin {calls : List ExtractedCall}
    (hcalls : ∀ x ∈ calls, c.isWindowCall x.function x.args.length x.window = true) (s : State) :
    c.materialiseBy (c.mutateWithin stop (depth + 1)) s calls = c.materialiseAgain s calls := by
  have hfold : c.hasWindows = true → ∀ (native : List ExtractedCall) (s : State),
      (∀ x ∈ native, c.needsWindow x.call = true ∧ c.needsJoin x.call = false) →
      native.foldlM (fun s x => c.mutateWithin stop (depth + 1) s x.temporary x.call) s =
        native.foldlM (fun s x => c.mutate s x.temporary x.call) s := by
    intro hwindows native
    induction native with
    | nil => exact fun _ _ => rfl
    | cons x native ih =>
        intro s hnative
        obtain ⟨⟨hwindow, hjoin⟩, hrest⟩ := List.forall_mem_cons.1 hnative
        rw [List.foldlM_cons, List.foldlM_cons,
          mutateWithin_of_native stop depth hwindow (by simp [hwindows, hjoin])]
        exact bind_congr fun s => ih s hrest
  cases hwindows : c.hasWindows with
  | false =>
      rw [materialiseBy, materialiseAgain, hwindows, Bool.not_false, if_pos rfl, if_pos rfl]
  | true =>
      have hnative : ∀ x ∈ calls.filter (not ∘ fun x => c.needsJoin x.call),
          c.needsWindow x.call = true ∧ c.needsJoin x.call = false := by
        intro x hx
        obtain ⟨hx, hjoin⟩ := List.mem_filter.1 hx
        exact ⟨needsWindow_call (hcalls x hx), by simpa using hjoin⟩
      rw [materialiseBy, materialiseAgain, hwindows, List.partition_eq_filter_filter]
      dsimp only
      rw [Bool.not_true, if_neg Bool.false_ne_true, if_neg Bool.false_ne_true]
      split
      · exact bind_congr fun s => hfold hwindows _ s hnative
      · exact bind_congr fun s => hfold hwindows _ s hnative

theorem filterWithin_eq_filterAgain (s : State) (e : Expr) :
    c.filterWithin stop (depth + 2) s e = c.filterAgain s e := by
  rw [filterWithin, filterAgain]
  refine bind_congr fun _ => ?_
  split
  · refine (BuildM.ensures_extracting_window c e).bind_congr ?_
    rintro ⟨rest, calls⟩ ⟨hcalls, hrest⟩
    simp only [materialiseBy_mutateWithin stop depth hcalls,
      filterWithin_of_not_needsWindow stop depth hrest]
  · rfl

theorem mutateWithin_eq_mutateAgain (s : State) (name : String) (e : Expr) :
    c.mutateWithin stop (depth + 2) s name e = c.mutateAgain s name e := by
  rw [mutateWithin, mutateAgain]
  refine bind_congr fun _ => ?_
  split
  · rfl
  split
  · rfl
  refine (BuildM.ensures_extracting_window c e).bind_congr ?_
  rintro ⟨rest, calls⟩ ⟨hcalls, hrest⟩
  simp only [materialiseBy_mutateWithin stop depth hcalls,
    mutateWithin_of_not_needsWindow stop depth hrest]

/-- What a builder takes out of an expression are its outermost calls over a window, from left to
right, under new names. Nothing over a window remains, and putting the calls back restores the
expression, if none of its columns has such a name. So the parts of a predicate or of a value are
never taken apart again, whatever the state, and wherever a chain has got to it makes no difference
that they are looked at once more. -/
theorem extracting_exact (c : Compiler) (e : Expr) :
    (∀ p : Progress, ∃ rest calls, (BuildM.extracting c.isWindowCall e).run p =
        .ok ((rest, calls), { p with temporaries := p.temporaries + calls.length }) ∧
      TakesOut c e p { p with temporaries := p.temporaries + calls.length } rest calls) ∧
    (∀ (stop other : BuildM State) (depth : Nat) (s : State),
      c.filterWithin stop (depth + 2) s e = c.filterWithin other 2 s e ∧
      ∀ name, c.mutateWithin stop (depth + 2) s name e = c.mutateWithin other 2 s name e) ∧
    ∀ (stop : BuildM State) (depth : Nat) (source : Source) (s : State), Reached c source s →
      c.filterWithin stop (depth + 2) s e = c.filter s e ∧
      ∀ name, c.mutateWithin stop (depth + 2) s name e = c.mutate s name e := by
  refine ⟨c.takesOut_extracting e, fun stop other depth s => ⟨?_, fun name => ?_⟩,
    fun stop depth source s hs => ⟨?_, fun name => ?_⟩⟩
  · rw [filterWithin_eq_filterAgain, filterWithin_eq_filterAgain other 0]
  · rw [mutateWithin_eq_mutateAgain, mutateWithin_eq_mutateAgain other 0]
  · rw [filterWithin_eq_filterAgain, BuildM.filter_eq_filterAgain hs]
  · rw [mutateWithin_eq_mutateAgain, BuildM.mutate_eq_mutateAgain hs]

/-- A sum over a mean, compared with a rank. -/
def nestedCalls : Expr :=
  .binary .gt
    (.binary .add (.column "x")
      (.plainCall "sum" [.binary .mul (.column "y") (.plainCall "mean" [.column "z"])]))
    (.plainCall "dense_rank" [.column "x"])

theorem extracting_exact_nestedCalls :
    ∃ rest calls later, (BuildM.extracting (Compiler.builtin .mysql57 .default).isWindowCall
        nestedCalls).run { Progress.start with temporaries := 2 } = .ok ((rest, calls), later) ∧
      later.temporaries = 4 ∧ calls.map (·.temporary) = ["win03", "win04"] ∧
      rest.columns = ["x", "win03", "win04"] ∧ rest.substitute (callFor calls) = nestedCalls ∧
      ∀ x ∈ calls, ¬ Progress.Issued { Progress.start with temporaries := 2 } x.temporary := by
  obtain ⟨rest, calls, hrun, hexact⟩ := (extracting_exact (.builtin .mysql57 .default)
    nestedCalls).1 { Progress.start with temporaries := 2 }
  have hlength : calls.length = 2 := by
    rw [← List.length_map (f := (·.call)), hexact.outermost]
    rfl
  have hnames : calls.map (·.temporary) = ["win03", "win04"] := by
    rw [hexact.temporaries, hlength]
    decide
  have hcolumns : rest.columns = ["x", "win03", "win04"] := by
    have hrest := congrArg (fun r => r.toOption.map (·.1.1.columns)) hrun
    exact Option.some.inj (hrest.symm.trans (by decide +kernel))
  have hnew : ∀ x ∈ calls, x.temporary ∉ nestedCalls.columns := by
    intro x hx
    have hmem : x.temporary ∈ calls.map (·.temporary) := List.mem_map_of_mem hx
    rw [hnames] at hmem
    exact (by decide : ∀ n ∈ ["win03", "win04"], n ∉ nestedCalls.columns) _ hmem
  exact ⟨rest, calls, _, hrun, congrArg (2 + ·) hlength, hnames, hcolumns, hexact.restored hnew,
    hexact.fresh⟩

end Compiler

end SqlChain
