import SqlChain.Proofs.Meaning.OverClause
import SqlChain.Proofs.Meaning.Temporaries

/-!
# What a chain with windows denotes

A dialect with window functions computes every window call over the rows that are there when its
operation comes: a predicate in the same level chooses before the windows of the level are
evaluated, so a level with windows is wrapped before it is chosen from (`read_build`).
-/

namespace SqlChain

open BuildM

variable {ω : Type}

namespace Compiler

variable (c : Compiler)

/-- Whether a call asks for a window that has no use for one. -/
def isMismarked : Expr → Bool
  | .call function args window => window && !c.isWindowCall function args.length false
  | _ => false

/-- Whether only such calls ask for a window as are evaluated over one. -/
def marksWindows (e : Expr) : Bool := !e.any c.isMismarked

/-- Whether the calls of an assigned expression are computed before it is assigned. -/
def takesOut (e : Expr) : Bool := c.needsWindow e && !(c.hasWindows && !c.needsJoin e)

end Compiler

namespace Windows

variable {W : Windows ω} {c : Compiler} {w : Window} {p : Place Env}

/-! ## Values of what is left -/

/-- What is left after an extraction has a property wherever the calls have their values in the
columns that stand for them. No call needs a join. -/
structure Evaluates (W : Windows ω) (c : Compiler) (w : Window) (p : Place Env) {α : Type}
    (m : StateM Extraction α) (P : Env → α → Prop) : Prop where
  calls : ∀ x, ∃ taken, (m.run x).2.calls = x.calls ++ taken ∧
    ∀ y ∈ taken, c.needsJoin y.call = false
  value : ∀ x env, (∀ y ∈ (m.run x).2.calls, env y.temporary = W.valueAt w p y.call) →
    P env (m.run x).1

namespace Evaluates

variable {α β γ : Type} {P : Env → α → Prop} {Q : Env → β → Prop} {R : Env → γ → Prop}

theorem pure {a : α} (h : ∀ env, P env a) :
    Evaluates W c w p (pure a : StateM Extraction α) P :=
  ⟨fun _ => ⟨[], (List.append_nil _).symm, by simp⟩, fun _ env _ => h env⟩

theorem map {m : StateM Extraction α} (hm : Evaluates W c w p m P) {f : α → β}
    (h : ∀ env a, P env a → Q env (f a)) : Evaluates W c w p (do return f (← m)) Q :=
  ⟨hm.calls, fun x env henv => h env _ (hm.value x env henv)⟩

theorem map₂ {m : StateM Extraction α} {n : StateM Extraction β} (hm : Evaluates W c w p m P)
    (hn : Evaluates W c w p n Q) {f : α → β → γ}
    (h : ∀ env a b, P env a → Q env b → R env (f a b)) :
    Evaluates W c w p (do return f (← m) (← n)) R := by
  refine ⟨fun x => ?_, fun x env henv => ?_⟩
  · obtain ⟨taken, htaken, hjoin⟩ := hm.calls x
    obtain ⟨more, hmore, hmoreJoin⟩ := hn.calls (m.run x).2
    refine ⟨taken ++ more, ?_, List.forall_mem_append.2 ⟨hjoin, hmoreJoin⟩⟩
    rw [← List.append_assoc, ← htaken]
    exact hmore
  · obtain ⟨more, hmore, _⟩ := hn.calls (m.run x).2
    refine h env _ _ (hm.value x env fun y hy => henv y ?_) (hn.value (m.run x).2 env henv)
    have hcalls : ((do return f (← m) (← n) : StateM Extraction γ).run x).2.calls =
        (m.run x).2.calls ++ more := hmore
    rw [hcalls]
    exact List.mem_append_left _ hy

/-- Two results with properties of their own, each where its columns are those of the row. -/
theorem append {as bs : List String} {m : StateM Extraction α} {n : StateM Extraction β}
    (hm : Evaluates W c w p m fun env a => (∀ n ∈ as, env n = p.here n) → P env a)
    (hn : Evaluates W c w p n fun env b => (∀ n ∈ bs, env n = p.here n) → Q env b) {f : α → β → γ}
    (h : ∀ env a b, P env a → Q env b → R env (f a b)) :
    Evaluates W c w p (do return f (← m) (← n)) fun env x =>
      (∀ n ∈ as ++ bs, env n = p.here n) → R env x := by
  refine hm.map₂ hn fun env a b ha hb hown => ?_
  obtain ⟨hleft, hright⟩ := List.forall_mem_append.1 hown
  exact h env a b (ha hleft) (hb hright)

end Evaluates

/-- A call that is taken out has its value in the column that stands for it. -/
theorem evaluates_take (hfunctions : c.functions = W.functions) {function : String}
    {args : List (Arg Expr)} {window : Bool}
    (hcall : c.isWindowCall function args.length window = true)
    (hjoin : c.needsJoin (.call function args window) = false)
    (hmarked : c.isMismarked (.call function args window) = false) :
    Evaluates W c w p (fun x => Extraction.take function args window x) fun env rest =>
      W.eval rest [env] = W.evalAt w p (.call function args window) := by
  refine ⟨fun x => ⟨_, rfl, fun y hy => ?_⟩, fun x env henv => ?_⟩
  · cases List.mem_singleton.1 hy
    exact hjoin
  · have hcolumn := henv _ (List.mem_append_right _ (List.mem_singleton_self _))
    have hplain : c.isWindowCall function args.length false = true := by
      cases window with
      | false => exact hcall
      | true => simpa [Compiler.isMismarked] using hmarked
    rw [← isSome_over? hfunctions w] at hplain
    obtain ⟨call, hover⟩ := Option.isSome_iff_exists.1 hplain
    have hvalue : W.evalAt w p (.call function args window) =
        W.ofScalar (W.overValue function args.length call p) := by
      rw [evalAt, hover]
    refine (congrArg W.ofScalar hcolumn).trans ?_
    rw [valueAt, ExtractedCall.call, hvalue, W.toScalar_ofScalar]

mutual

/-- What is left of an expression has the value that the expression has among all rows. -/
theorem evaluates_extract (hfunctions : c.functions = W.functions) : ∀ e : Expr,
    c.needsJoin e = false → e.any c.isMismarked = false →
      Evaluates W c w p (e.extract c.isWindowCall) fun env rest =>
        (∀ n ∈ e.columns, env n = p.here n) → W.eval rest [env] = W.evalAt w p e
  | .column name, _, _ => .pure fun env hown =>
      congrArg W.ofScalar (hown name (by simp [Expr.columns]))
  | .literal value, _, _ => .pure fun env _ => rfl
  | .call function args window, hjoin, hmarked => by
    rw [Expr.extract]
    split
    · next hcall =>
        obtain ⟨hmismarked, _⟩ := Bool.or_eq_false_iff.1 hmarked
        have htake := evaluates_take (w := w) (p := p) hfunctions hcall hjoin hmismarked
        exact ⟨htake.calls, fun x env henv _ => htake.value x env henv⟩
    · next hcall =>
        have hnone : c.isWindowCall function args.length window = false := by simpa using hcall
        have hargs := evaluates_extractArgs hfunctions args (Bool.or_eq_false_iff.1 hjoin).2
          (Bool.or_eq_false_iff.1 hmarked).2
        refine ⟨hargs.calls, fun x env henv hown => ?_⟩
        have hrest : c.isWindowCall function
            ((Expr.extractArgs c.isWindowCall args).run x).1.length window = false := by
          rwa [Expr.length_extractArgs]
        refine (eval_call hfunctions hrest [env]).trans ?_
        rw [evalAt_call hfunctions w p hnone]
        exact congrArg _ (hargs.value x env henv hown)
  | .conditional condition value none, hjoin, hmarked => by
    obtain ⟨hjc, hjv⟩ := Bool.or_eq_false_iff.1 hjoin
    obtain ⟨hmc, hmv⟩ := Bool.or_eq_false_iff.1 hmarked
    refine (evaluates_extract hfunctions condition hjc hmc).append
      (evaluates_extract hfunctions value hjv hmv)
      (f := fun condition value => Expr.conditional condition value none) ?_
    intro env a b ha hb
    rw [Semantics.eval, evalAt, ha, hb]
  | .conditional condition value (some otherwise), hjoin, hmarked => by
    obtain ⟨hjoin, hjo⟩ := Bool.or_eq_false_iff.1 hjoin
    obtain ⟨hjc, hjv⟩ := Bool.or_eq_false_iff.1 hjoin
    obtain ⟨hmarked, hmo⟩ := Bool.or_eq_false_iff.1 hmarked
    obtain ⟨hmc, hmv⟩ := Bool.or_eq_false_iff.1 hmarked
    have hvalues := (evaluates_extract hfunctions condition hjc hmc).append
      (evaluates_extract hfunctions value hjv hmv) (f := Prod.mk)
      (R := fun env values => W.eval values.1 [env] = W.evalAt w p condition ∧
        W.eval values.2 [env] = W.evalAt w p value) fun env a b => And.intro
    refine hvalues.append (evaluates_extract hfunctions otherwise hjo hmo)
      (f := fun values otherwise => Expr.conditional values.1 values.2 (some otherwise)) ?_
    intro env values b hvalues hb
    rw [Semantics.eval, evalAt, hvalues.1, hvalues.2, hb]
  | .inList expr candidates, hjoin, hmarked => by
    obtain ⟨hje, hjs⟩ := Bool.or_eq_false_iff.1 hjoin
    obtain ⟨hme, hms⟩ := Bool.or_eq_false_iff.1 hmarked
    refine (evaluates_extract hfunctions expr hje hme).append
      (evaluates_extractList hfunctions candidates hjs hms) (f := Expr.inList) ?_
    intro env a b ha hb
    rw [Semantics.eval, evalAt, ha, hb]
  | .inExpr left right, hjoin, hmarked => by
    obtain ⟨hjl, hjr⟩ := Bool.or_eq_false_iff.1 hjoin
    obtain ⟨hml, hmr⟩ := Bool.or_eq_false_iff.1 hmarked
    refine (evaluates_extract hfunctions left hjl hml).append
      (evaluates_extract hfunctions right hjr hmr) (f := Expr.inExpr) ?_
    intro env a b ha hb
    rw [Semantics.eval, evalAt, ha, hb]
  | .binary op left right, hjoin, hmarked => by
    obtain ⟨hjl, hjr⟩ := Bool.or_eq_false_iff.1 hjoin
    obtain ⟨hml, hmr⟩ := Bool.or_eq_false_iff.1 hmarked
    refine (evaluates_extract hfunctions left hjl hml).append
      (evaluates_extract hfunctions right hjr hmr) (f := Expr.binary op) ?_
    intro env a b ha hb
    rw [Semantics.eval, evalAt, ha, hb]
  | .unary op operand, hjoin, hmarked => by
    refine (evaluates_extract hfunctions operand hjoin hmarked).map (f := Expr.unary op) ?_
    intro env a ha hown
    rw [Semantics.eval, evalAt, ha hown]

theorem evaluates_extractArgs (hfunctions : c.functions = W.functions) :
    ∀ args : List (Arg Expr), Expr.anyArg c.isJoinOnly args = false →
      Expr.anyArg c.isMismarked args = false →
        Evaluates W c w p (Expr.extractArgs c.isWindowCall args) fun env rest =>
          (∀ n ∈ Expr.columnsOfArgs args, env n = p.here n) →
            W.evalArgs rest [env] = W.evalArgsAt w p args
  | [], _, _ => .pure fun _ _ => rfl
  | ⟨name, e⟩ :: rest, hjoin, hmarked => by
    obtain ⟨hje, hjs⟩ := Bool.or_eq_false_iff.1 hjoin
    obtain ⟨hme, hms⟩ := Bool.or_eq_false_iff.1 hmarked
    refine (evaluates_extract hfunctions e hje hme).append
      (evaluates_extractArgs hfunctions rest hjs hms) (f := fun e rest => Arg.mk name e :: rest) ?_
    intro env a b ha hb
    rw [Semantics.evalArgs, evalArgsAt, ha, hb]

theorem evaluates_extractList (hfunctions : c.functions = W.functions) :
    ∀ es : List Expr, Expr.anyOf c.isJoinOnly es = false →
      Expr.anyOf c.isMismarked es = false →
        Evaluates W c w p (Expr.extractList c.isWindowCall es) fun env rest =>
          (∀ n ∈ Expr.columnsOfList es, env n = p.here n) →
            W.evalList rest [env] = W.evalListAt w p es
  | [], _, _ => .pure fun _ _ => rfl
  | e :: rest, hjoin, hmarked => by
    obtain ⟨hje, hjs⟩ := Bool.or_eq_false_iff.1 hjoin
    obtain ⟨hme, hms⟩ := Bool.or_eq_false_iff.1 hmarked
    refine (evaluates_extract hfunctions e hje hme).append
      (evaluates_extractList hfunctions rest hjs hms) (f := List.cons) ?_
    intro env a b ha hb
    rw [Semantics.evalList, evalListAt, ha, hb]

end

/-- What is left of an expression has the value of the expression in every row with the values of its
calls over the window. -/
theorem eval_resolved (hfunctions : c.functions = W.functions) (hwindows : c.hasWindows = true)
    {e : Expr} (hjoin : c.needsJoin e = false) (hmarked : c.marksWindows e = true)
    (hnames : ∀ n, temporaryName n ∉ e.columns) (issued : Nat) (w : Window) (p : Place Env) :
    W.eval (c.extraction issued e).1
        [resolved (c.extraction issued e).2 (W.callAt c w) p] = W.evalAt w p e := by
  have hmismarked : e.any c.isMismarked = false := by simpa [Compiler.marksWindows] using hmarked
  have hextract := evaluates_extract (w := w) (p := p) hfunctions e hjoin hmismarked
  obtain ⟨hnodup, htemporary⟩ := Expr.temporaries_extract c.isWindowCall e issued
  obtain ⟨taken, htaken, hnone⟩ := hextract.calls { issued, calls := [] }
  refine hextract.value { issued, calls := [] } _ (fun y hy => ?_) fun n hn => ?_
  · have hnative : isNative c y = true := by
      rw [htaken, List.nil_append] at hy
      rw [isNative, hwindows, hnone y hy]
      rfl
    have hfind := find?_key_eq ExtractedCall.temporary hnodup hy
    have hvalue : resolved (c.extraction issued e).2 (W.callAt c w) p y.temporary =
        W.callAt c w y p :=
      congrArg (fun found => (Option.map (fun x => W.callAt c w x p) found).getD _) hfind
    rw [hvalue, callAt, hnative, if_pos rfl]
  · have hfind : (c.extraction issued e).2.find? (·.temporary == n) = none := by
      rw [List.find?_eq_none]
      intro y hy hname
      obtain ⟨k, hk⟩ := htemporary y hy
      exact hnames k (hk ▸ (beq_iff_eq.1 hname).symm ▸ hn)
    rw [resolved, hfind]
    rfl

/-! ## Operations -/

variable {source : Source} {s : State} {l : Listing}

/-- The names of columns are all different, and none is the name of a temporary column. -/
structure HasNames (l : Listing) : Prop where
  nodup : l.columns.Nodup
  fresh : ∀ n, temporaryName n ∉ l.columns

/-- An assignment whose calls stay in it sees all rows at once. -/
theorem ensures_mutate_merged {name : String} {e : Expr}
    (hfunctions : c.functions = W.functions) (h : W.Reads c source s l) (hnodup : l.columns.Nodup)
    (hmerged : c.takesOut e = false) :
    (c.mutate s name e).Ensures fun s' => W.Reads c source s' (W.assign l name e) := by
  refine Ensures.bind (.lift fun _ hcheck => hcheck) fun _ hcheck => ?_
  have he : ∀ n ∈ e.columns, n ∈ l.columns := h.columns ▸ State.mem_of_checkNames hcheck
  cases hwindow : c.needsWindow e with
  | true =>
      have hnative : (c.hasWindows && !c.needsJoin e) = true := by
        simpa [Compiler.takesOut, hwindow] using hmerged
      rw [hnative]
      exact ensures_assign h hnodup true name he
  | false =>
      have hvalue : (fun q : Place Env => W.value e [q.here]) =
          fun q => W.valueAt l.window q e :=
        funext fun q => congrArg W.toScalar (evalAt_eq_eval hfunctions e hwindow).symm
      have hassign := ensures_assign h hnodup false name he
      rw [assign, ← hvalue]
      exact hassign

section

variable {e : Expr} (hfunctions : c.functions = W.functions) (hwindows : c.hasWindows = true)
  (h : W.Reads c source s l) (hnames : HasNames l) (hjoin : c.needsJoin e = false)

include hfunctions hwindows h hnames hjoin

theorem ensures_filter (hmarked : c.marksWindows e = true) :
    (c.filter s e).Ensures fun s' => W.Reads c source s' (W.restrict l e) := by
  intro p s' later hrun
  by_cases hwindow : c.needsWindow e = true
  · obtain ⟨he, q, hrun⟩ := Compiler.exists_run_filter hwindow hrun
    rw [h.columns] at he
    obtain ⟨hcalls, hrest⟩ := c.columns_extraction p.temporaries e
    obtain ⟨hnodup, htemporary⟩ := Expr.temporaries_extract c.isWindowCall e p.temporaries
    have hfilter := ensures_filter_calls hfunctions h hnames.nodup
      (fun x hx n hn => he n (hcalls x hx n hn)) (fun n hn => (hrest n hn).imp_left (he n)) hnodup
      (fun x hx hmem => by
        obtain ⟨k, hk⟩ := htemporary x hx
        exact hnames.fresh k (hk ▸ hmem)) q s' later hrun
    have hholds : (fun p' => W.holds (c.extraction p.temporaries e).1
        (resolved (c.extraction p.temporaries e).2 (W.callAt c l.window) p')) =
          fun p' => W.holdsAt l.window p' e := by
      funext p'
      refine congrArg W.isTrue (eval_resolved hfunctions hwindows hjoin hmarked ?_ _ _ p')
      exact fun n hn => hnames.fresh n (he _ hn)
    rwa [hholds] at hfilter
  · have hnone : c.needsWindow e = false := by simpa using hwindow
    have hfilter : (c.filter s e).Ensures fun s' =>
        W.Reads c source s' (l.restrict fun p => W.holds e p.here) := by
      refine Ensures.bind (.lift fun _ hcheck => hcheck) fun _ hcheck => ?_
      rw [hnone]
      exact ensures_filterRows h hnames.nodup (h.columns ▸ State.mem_of_checkNames hcheck)
    have hholds : (fun p' : Place Env => W.holds e p'.here) =
        fun p' => W.holdsAt l.window p' e :=
      funext fun p' => congrArg W.isTrue (evalAt_eq_eval hfunctions e hnone).symm
    rw [hholds] at hfilter
    exact hfilter p s' later hrun

theorem ensures_mutate (name : String) :
    (c.mutate s name e).Ensures fun s' => W.Reads c source s' (W.assign l name e) := by
  refine ensures_mutate_merged hfunctions h hnames.nodup ?_
  simp [Compiler.takesOut, hwindows, hjoin]

end

end Windows

/-- Whether every predicate and every assignment can be written with `OVER`. The aggregates of a
summary are evaluated over its groups. -/
def Op.isNative (c : Compiler) : Op → Bool
  | .filter predicates => predicates.all fun e => !c.needsJoin e && c.marksWindows e
  | .mutate assignments => assignments.all fun a => !c.needsJoin a.2 && c.marksWindows a.2
  | _ => true

namespace Windows

variable {W : Windows ω} {c : Compiler} {source : Source} {s : State} {l : Listing}

/-- The columns that there are between the assignments of an operation are there when it is over. -/
theorem HasNames.assigns (h : HasNames l) {assignments : List (String × Expr)}
    (hafter : HasNames (W.apply l (.mutate assignments))) (n : Nat) :
    HasNames ((assignments.take n).foldl (fun l a => W.assign l a.1 a.2) l) where
  nodup := W.nodup_assigns h.nodup _
  fresh := by
    intro k hk
    have hsubset := W.subset_assigns
      ((assignments.take n).foldl (fun l a => W.assign l a.1 a.2) l) (assignments.drop n)
    rw [← List.foldl_append, List.take_append_drop] at hsubset
    exact hafter.fresh k (hsubset hk)

theorem ensures_step (hfunctions : c.functions = W.functions) (hwindows : c.hasWindows = true)
    (h : W.Reads c source s l) {op : Op} (hnames : HasNames l) (hafter : HasNames (W.apply l op))
    (hop : op.isNative c = true) :
    (c.step s op).Ensures fun s' => W.Reads c source s' (W.apply l op) := by
  cases op with
  | select idents => exact ensures_select h idents
  | rename pairs => exact ensures_rename h hnames.nodup pairs
  | filter predicates =>
      have hnative := List.all_eq_true.1 hop
      refine .foldlM_foldl HasNames h (fun n => ?_) fun s l hs hl e he => ?_
      · exact ⟨(W.columns_restricts l _).symm ▸ hnames.nodup,
          (W.columns_restricts l _).symm ▸ hnames.fresh⟩
      · obtain ⟨hjoin, hmarked⟩ := Bool.and_eq_true_iff.1 (hnative e he)
        exact ensures_filter hfunctions hwindows hs hl (by simpa using hjoin) hmarked
  | mutate assignments =>
      have hnative := List.all_eq_true.1 hop
      refine .foldlM_foldl HasNames h (hnames.assigns hafter) fun s l hs hl a ha => ?_
      have hjoin := (Bool.and_eq_true_iff.1 (hnative a ha)).1
      exact ensures_mutate hfunctions hwindows hs hl (by simpa using hjoin) a.1
  | summarise assignments => exact ensures_summarise h hnames.nodup assignments
  | arrange keys => exact ensures_arrange h keys
  | groupBy keys add => exact ensures_groupBy h keys add
  | ungroup => exact .pure ⟨h.reached.move (.regroup (by simp)), h.level, rfl, h.order⟩

theorem reads_ofSource (hnodup : source.columns.Nodup) :
    W.Reads c source (.ofSource source) (W.table source) where
  reached := .start
  level := readBody_identity (t := W.stored source.schema source.name source.columns) hnodup
    (by simp [Semantics.stored]) []
  groups := rfl
  order := rfl

theorem ensures_ops (hfunctions : c.functions = W.functions) (hwindows : c.hasWindows = true)
    {ops : List Op} (hops : ∀ op ∈ ops, op.isNative c = true)
    (hnames : ∀ n, HasNames ((ops.take n).foldl W.apply l)) (h : W.Reads c source s l) :
    (ops.foldlM c.step s).Ensures fun s' => W.Reads c source s' (ops.foldl W.apply l) := by
  induction ops generalizing s l with
  | nil => exact .pure h
  | cons op rest ih =>
      rw [List.foldlM_cons]
      have hstep := ensures_step hfunctions hwindows h (hnames 0) (hnames 1) (hops op (by simp))
      have hlater := fun x hx => hops x (List.mem_cons_of_mem op hx)
      exact hstep.bind fun next hnext => ih hlater (fun n => hnames (n + 1)) hnext

/-- A chain that is built for a dialect with windows denotes what its operations come to one after
another, every window call being evaluated over all rows that are there when its operation comes, in
groups, and in the order that is in force there. Every text stands for what it is read as, and a call
over a window names the rows that it sees. -/
theorem read_build (W : Windows ω) (dialect : Dialect) (config : Config) (q : Query)
    (hwindows : dialect.features.windowFunctions = true)
    (hnative : ∀ op ∈ q.ops, op.isNative { dialect, config, functions := W.functions } = true)
    (hnames : ∀ n, HasNames (W.result q.source (q.ops.take n))) {p later : Progress} {s : State}
    (hbuild : (Compiler.build { dialect, config, functions := W.functions } q).run p =
      .ok (s, later)) :
    let c : Compiler := { dialect, config, functions := W.functions }
    let l := W.result q.source q.ops
    W.read s.level = l.toRowSet ∧ s.groups = l.groups ∧ s.order = l.order ∧
      (∀ inner ∈ s.level.nest, inner.IsWritten c) ∧
      ∀ (w : Window) (function : String) (args : List (Arg Expr)) (window : Bool) (form : SqlForm)
        (call : OverCall), W.functions.form? function args.length = some form →
          form.over? w args = some call →
            (c.compile { window := some w, qualifier := none } (.call function args window)).Ensures
              (call.IsWritten c form) := by
  intro c l
  have hreads := ensures_ops (c := c) rfl hwindows hnative hnames
    (reads_ofSource (hnames 0).nodup) p s later hbuild
  refine ⟨hreads.level, hreads.groups, hreads.order, fun inner hinner => ?_, ?_⟩
  · exact (hreads.reached.isSound inner hinner).2.isWritten
  · exact fun w function args window form call hform hcall => ensures_overCall hform hcall window

/-- Groups, of which one has a null key, are chosen from by a running sum, then numbered, then
chosen from again. The numbers are those from before the second choice. -/
theorem read_build_running :
    let rows := [[.null, .int64 4], [.utf8 "a", .int64 2], [.null, .int64 1], [.null, .int64 3],
      [.utf8 "a", .int64 5]]
    let W := integers (rows.map (cell ["g", "x"]))
    let q : Query :=
      { source := { schema := none, name := "t", columns := ["g", "x"] }
        ops := [
          .groupBy ["g"] false,
          .arrange [.plainCall "desc" [.column "x"]],
          .filter [
            .binary .gt (.plainCall "sum" [.column "x"]) (.plainCall "cumsum" [.column "x"])],
          .mutate [("k", .binary .add (.plainCall "row_number" []) (.plainCall "n" []))],
          .filter [.binary .gt (.column "x") (.literal (.int64 3))],
          .ungroup,
          .mutate [("all", .plainCall "n" [])]] }
    ∃ s later, (Compiler.build (.builtin .ansi .default) q).run .start = .ok (s, later) ∧
      W.read s.level =
        { columns := ["g", "x", "k", "all"]
          rows := [[.null, .int64 4, .int64 3, .int64 2], [.utf8 "a", .int64 5, .int64 2, .int64 2]] } := by
  intro rows W q
  have hnative : ∀ op ∈ q.ops, op.isNative (.builtin .ansi .default) = true := by decide
  obtain ⟨⟨s, later⟩, hbuild⟩ := exists_of_isOk
    (r := (Compiler.build (.builtin .ansi .default) q).run .start) (by decide +kernel)
  have hfirst : ∀ n < 8, let columns := (W.result q.source (q.ops.take n)).columns
      columns.Nodup ∧ ∀ name ∈ columns, name.toList.head? ≠ some 'w' := by decide +kernel
  have hnames : ∀ n, HasNames (W.result q.source (q.ops.take n)) := by
    intro n
    obtain ⟨hnodup, hhead⟩ : let columns := (W.result q.source (q.ops.take n)).columns
        columns.Nodup ∧ ∀ name ∈ columns, name.toList.head? ≠ some 'w' := by
      rcases Nat.lt_or_ge n 8 with hn | hn
      · exact hfirst n hn
      · rw [List.take_of_length_le (by exact Nat.le_of_lt hn)]
        exact hfirst 7 (by decide)
    exact ⟨hnodup, fun k hk => hhead _ hk (by simp [temporaryName])⟩
  have hread := (read_build W .ansi .default q rfl hnative hnames hbuild).1
  exact ⟨s, later, hbuild, hread.trans (by decide +kernel)⟩

end Windows

end SqlChain
