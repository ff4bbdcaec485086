import SqlChain.Proofs.Lenient.Leads
import SqlChain.Proofs.Syntax.Shelter

/-!
# Calls that are read back

What a call compiles to is read as the tree of its form, if its operands are read as theirs. An operand
is related to a node in every way in which a call may use it.
-/

namespace SqlChain

namespace SqlForm

/-- The functions that a call of this form is written with. -/
def functions : SqlForm → List String
  | .scalar sql | .aggregate sql => [sql]
  | _ => []

def types : SqlForm → List String
  | .special (.cast type) => [type]
  | _ => []

/-- Whether a call of this form cannot do without arguments. -/
def needsArgument : SqlForm → Bool
  | .special .nDistinct | .special (.concat _) => true
  | _ => false

end SqlForm

namespace Syntax

open Grammar

/-- A compiler whose texts can be read back. -/
structure IsSpoken (c : Compiler) : Prop where
  plain : IsPlain c.dialect
  length : IsCallable c.dialect.lengthFunction
  functions : ∀ entry ∈ c.functions.entries, ∀ w ∈ entry.form.functions, IsCallable w
  types : ∀ entry ∈ c.functions.entries, ∀ w ∈ entry.form.types, IsWord w
  nonempty : ∀ entry ∈ c.functions.entries,
    entry.form.needsArgument = true → entry.arity.accepts 0 = false

theorem isSpoken_builtin (b : Backend) (config : Config) : IsSpoken (.builtin b.dialect config) where
  plain := isPlain_dialect b
  length := by
    change IsCallable b.dialect.lengthFunction
    cases b <;> decide
  functions := by
    change ∀ entry ∈ FunctionTable.builtin.entries, _
    decide +kernel
  types := by
    change ∀ entry ∈ FunctionTable.builtin.entries, _
    decide +kernel
  nonempty := by
    change ∀ entry ∈ FunctionTable.builtin.entries, _
    decide +kernel

variable {c : Compiler} {g : Grammar}

/-- Whatever the computation returns is read as the tree, which there is then. -/
def IsRead (c : Compiler) (g : Grammar) (tail : Tail) (m : CompileM Term) (tree : Option Tree) :
    Prop :=
  m.Ensures fun t => ∃ x, tree = some x ∧ Reads c.dialect g tail t x

abbrev ReadsList (d : Dialect) (g : Grammar) : List Term → List Tree → Prop :=
  List.Forall₂ fun t x => ReadsText d g (t.text false) x

def AreRead (c : Compiler) (g : Grammar) (m : CompileM (List Term)) (trees : Option (List Tree)) :
    Prop :=
  m.Ensures fun ts => ∃ xs, trees = some xs ∧ ReadsList c.dialect g ts xs

def CandidatesRead (c : Compiler) (g : Grammar) (trees : Option (List Tree)) : Candidates → Prop
  | .each items => AreRead c g (items.mapM fun item => item none) trees
  | .value m => (m none).Ensures fun t =>
      ∃ x, trees = some [x] ∧ ∃ tail, Reads c.dialect g tail t x

structure OperandRead (c : Compiler) (g : Grammar) (o : Operand) (n : Node) : Prop where
  expr : o.expr = n.expr
  value : IsRead c g (c.tail n.expr) (o.value none) n.tree
  candidates : CandidatesRead c g n.candidates o.candidates
  hasAny_eq : o.candidates.hasAny = !Compiler.listsNothing n.expr

/-- What is returned for the members of a list, where there is a tree for each of them. -/
theorem ensures_mapM_some {α β : Type} {f : α → CompileM Term} {tree : β → Option Tree}
    {R : Term → Tree → Prop} {as : List α} {bs : List β}
    (h : List.Forall₂ (fun a b => (f a).Ensures fun t => ∃ x, tree b = some x ∧ R t x) as bs) :
    (as.mapM f).Ensures fun ts => ∃ xs, bs.mapM tree = some xs ∧ List.Forall₂ R ts xs := by
  induction h with
  | nil => exact .pure ⟨[], rfl, .nil⟩
  | cons hab _ ih =>
      rw [List.mapM_cons]
      refine CompileM.Ensures.bind hab ?_
      rintro t ⟨x, hx, ht⟩
      refine CompileM.Ensures.bind ih ?_
      rintro ts ⟨xs, hxs, hts⟩
      refine .pure ⟨x :: xs, ?_, .cons ht hts⟩
      rw [List.mapM_cons, hx, hxs]
      rfl

/-! ## Arguments -/

section

variable {args : List (Arg Operand)} {nodes : List (Arg Node)}
  (hargs : RelatedArgs (OperandRead c g) args nodes)

include hargs

theorem ensures_argument (function : String) (i : Nat) :
    (Compiler.argument function args i).Ensures fun o =>
      ∃ n, Node.argument? nodes i = some n ∧ OperandRead c g o n := by
  rw [Compiler.argument]
  cases harg : args[i]? with
  | none => exact .throw _
  | some arg =>
      obtain ⟨hi, rfl⟩ := List.getElem?_eq_some_iff.1 harg
      have hnodes : i < nodes.length := hargs.length_eq ▸ hi
      refine .pure ⟨nodes[i].value, by simp [Node.argument?, hnodes], ?_⟩
      exact (List.forall₂_iff_get.1 hargs).2 i hi hnodes |>.2

/-- A call that goes on with the term of one of its arguments. -/
theorem isRead_argument_bind (function : String) (i : Nat) {tail : Tail} {tree : Option Tree}
    (rest : Term → CompileM Term)
    (hrest : ∀ n t x, Node.argument? nodes i = some n → Node.tree? nodes i = some x →
      Reads c.dialect g (c.tail n.expr) t x → IsRead c g tail (rest t) tree) :
    IsRead c g tail (do
      let operand ← Compiler.argument function args i
      let t ← operand.value none
      rest t) tree := by
  refine (ensures_argument hargs function i).bind ?_
  rintro o ⟨n, hn, ho⟩
  refine CompileM.Ensures.bind ho.value ?_
  rintro t ⟨x, hx, ht⟩
  exact hrest n t x hn (by rw [Node.tree?, hn]; exact hx) ht

theorem areRead_values : AreRead c g (Compiler.values args none) (Node.trees nodes) := by
  refine ensures_mapM_some (hargs.imp fun arg node harg => harg.2.value.imp ?_)
  rintro t ⟨x, hx, ht⟩
  exact ⟨x, hx, ht.alone⟩

/-- Arguments that are parts of a concatenation. -/
theorem ensures_parts
    (hclosed : ∀ e ∈ (Node.exprs nodes).dropLast, (c.tail e).isOpen = false) :
    (Compiler.values args none).Ensures fun ts => ∃ xs, Node.trees nodes = some xs ∧
      ForallToLast (ReadsPart c.dialect g false) (ReadsPart c.dialect g true) ts xs := by
  rw [Compiler.values]
  induction hargs with
  | nil => exact .pure ⟨[], rfl, .nil⟩
  | @cons arg node args nodes harg hrest ih =>
      rw [List.mapM_cons]
      refine CompileM.Ensures.bind harg.2.value ?_
      rintro t ⟨x, hx, ht⟩
      cases hrest with
      | nil =>
          refine .bind (.pure rfl) ?_
          rintro _ rfl
          refine .pure ⟨[x], ?_, .last ht.ends⟩
          rw [Node.trees, List.mapM_cons, hx]
          rfl
      | @cons arg' node' args nodes harg' hrest =>
          simp only [Node.exprs, List.map_cons, List.dropLast_cons_cons, List.forall_mem_cons]
            at hclosed ih
          refine CompileM.Ensures.bind (ih hclosed.2) ?_
          rintro ts ⟨xs, hxs, hts⟩
          refine .pure ⟨x :: xs, ?_, .cons (ht.leads hclosed.1) hts⟩
          rw [Node.trees] at hxs ⊢
          rw [List.mapM_cons, hx, hxs]
          rfl

end

theorem ensures_values_ne_nil {args : List (Arg Operand)} (hsome : args ≠ []) :
    (Compiler.values args none).Ensures (· ≠ []) := by
  refine (CompileM.Ensures.length_mapM _ _).imp ?_
  rintro ts hlength rfl
  exact hsome (List.eq_nil_of_length_eq_zero hlength.symm)

/-! ## Calls -/

theorem reads_scalar (h : IsSpoken c) (value : Scalar) :
    Reads c.dialect g .closed (c.literal value) (c.literalTree value) :=
  reads_literal (lexesLiteral_literal h.plain _ value)

theorem isRead_conditional (h : IsSpoken c) {condition value : Compiled}
    {otherwise : Option Compiled} {left right : Tail} {x y : Option Tree}
    {z : Option (Option Tree)} (hcondition : IsRead c g left (condition none) x)
    (hvalue : IsRead c g right (value none) y)
    (hotherwise : Option.Rel (fun m z => ∃ tail, IsRead c g tail (m none) z) otherwise z) :
    IsRead c g .closed (Compiler.conditional condition value otherwise none)
      (Compiler.conditionalTree x y z) := by
  refine CompileM.Ensures.bind hcondition ?_
  rintro t ⟨x, rfl, ht⟩
  refine CompileM.Ensures.bind hvalue ?_
  rintro u ⟨y, rfl, hu⟩
  cases hotherwise with
  | none => exact .pure ⟨.conditional x y none, rfl, reads_conditional h.plain ht.alone hu.alone⟩
  | some hm =>
      obtain ⟨tail, hm⟩ := hm
      refine CompileM.Ensures.bind hm ?_
      rintro v ⟨z, rfl, hv⟩
      exact .pure ⟨.conditional x y (some z), rfl,
        reads_conditional_else h.plain ht.alone hu.alone hv.alone⟩

theorem isRead_membership (h : IsSpoken c) {operand : Compiled} {tail : Tail}
    {tree : Option Tree} (hoperand : IsRead c g tail (operand none) tree)
    {candidates : Candidates} (hclosed : candidates.hasAny = true → tail.isOpen = false)
    {trees : Option (List Tree)} (hcandidates : CandidatesRead c g trees candidates) :
    IsRead c g .closed (c.membership operand candidates none) (c.memberTree tree trees) := by
  refine CompileM.Ensures.bind hoperand ?_
  rintro t ⟨x, rfl, ht⟩
  cases candidates with
  | each items =>
      cases items with
      | nil =>
          obtain ⟨xs, rfl, hxs⟩ := hcandidates [] [] [] rfl
          cases hxs
          exact .pure ⟨c.literalTree (.boolean false), rfl, reads_scalar h _⟩
      | cons item items =>
          refine CompileM.Ensures.bind (hcandidates.and (.length_mapM _ _)) ?_
          rintro us ⟨⟨xs, rfl, hus⟩, hlength⟩
          cases hus with
          | nil => cases hlength
          | @cons u y us ys hu hus =>
              exact .pure ⟨.member x (y :: ys), rfl, ht.inList h.plain (hclosed rfl) (.cons hu hus) (by simp)⟩
  | value m =>
      refine CompileM.Ensures.bind hcandidates ?_
      rintro u ⟨y, rfl, items, hu⟩
      exact .pure ⟨.member x [y], rfl, ht.inTerm h.plain (hclosed rfl) hu⟩

theorem reads_substring (h : IsSpoken c) {string : Term} {x : Tree}
    (hs : ReadsText c.dialect g (string.text false) x) (start length : Int64) :
    Reads c.dialect g .closed (c.substring string start length) (c.substringTree x start length) := by
  have hnumber : ∀ n : Int64, Reads c.dialect g .closed (.literal (toString n.toInt)) _ := fun n =>
    reads_literal (lexesLiteral_signed h.plain (isSigned_toString n.toInt))
  have hargs : ReadsList c.dialect g
      [string, .literal (toString start.toInt), .literal (toString length.toInt)] _ :=
    .cons hs (.cons (hnumber start).alone (.cons (hnumber length).alone .nil))
  rw [Compiler.substring, Compiler.substringTree]
  cases c.dialect.substring with
  | substr | substring => exact reads_apply h.plain (by decide) (by decide) hargs
  | fromFor => exact reads_substringFor h.plain hs start length

theorem isInfix_sql (op : BinaryOp) : IsInfix op.sql := by
  cases op <;> exact ⟨by decide, by decide⟩

theorem forall₂_intersperse {α β : Type} {R : α → β → Prop} {a : α} {b : β} (hab : R a b)
    {as : List α} {bs : List β} (h : List.Forall₂ R as bs) :
    List.Forall₂ R (as.intersperse a) (bs.intersperse b) := by
  induction h with
  | nil => exact .nil
  | cons hfirst hrest ih =>
      cases hrest with
      | nil => exact .cons hfirst .nil
      | cons => exact .cons hfirst (.cons hab ih)

theorem forall₂_separated {R : Term → Tree → Prop}
    (hR : ∀ s, R (c.literal (.utf8 s)) (c.literalTree (.utf8 s))) (separator : Option String)
    {ts : List Term} {xs : List Tree} (hts : List.Forall₂ R ts xs) :
    List.Forall₂ R (Compiler.separated (separator.map fun s => c.literal (.utf8 s)) ts)
      (c.separatedTrees separator xs) := by
  cases separator with
  | none => exact hts
  | some s => exact forall₂_intersperse (hR s) hts

theorem forallToLast_separated {R S : Term → Tree → Prop}
    (hR : ∀ s, R (c.literal (.utf8 s)) (c.literalTree (.utf8 s))) (separator : Option String)
    {ts : List Term} {xs : List Tree} (hts : ForallToLast R S ts xs) :
    ForallToLast R S (Compiler.separated (separator.map fun s => c.literal (.utf8 s)) ts)
      (c.separatedTrees separator xs) := by
  cases separator with
  | none => exact hts
  | some s => exact hts.intersperse (hR s)

/-- Parts that are put together are the arguments of a call or the operands of one operator. -/
theorem isRead_concat (h : IsSpoken c) (separator : Option String) {ts : List Term}
    {xs : List Tree} (hargs : ReadsList c.dialect g ts xs)
    (hparts : c.dialect.concat = .operator →
      ForallToLast (ReadsPart c.dialect g false) (ReadsPart c.dialect g true) ts xs)
    (hsome : ts ≠ []) :
    IsRead c g .closed
      (let parts := Compiler.separated (separator.map fun s => c.literal (.utf8 s)) ts
      match c.dialect.concat with
      | .function => return .apply "CONCAT" parts
      | .operator => return .concat parts)
      (c.concatTree g separator xs) := by
  have hscalar := fun s => reads_scalar (g := g) h (.utf8 s)
  have hsome : Compiler.separated (separator.map fun s => c.literal (.utf8 s)) ts ≠ [] := by
    cases separator with
    | none => exact hsome
    | some s =>
        obtain ⟨t, ts, rfl⟩ := List.exists_cons_of_ne_nil hsome
        cases ts <;> simp [Compiler.separated]
  rw [Compiler.concatTree]
  cases hconcat : c.dialect.concat with
  | function =>
      have hargs := forall₂_separated (c := c) (fun s => (hscalar s).alone) separator hargs
      exact .pure ⟨_, rfl, reads_apply h.plain (by decide) (by decide) hargs⟩
  | operator =>
      have hparts := forallToLast_separated (c := c)
        (fun s => (hscalar s).leads rfl) separator (hparts hconcat)
      generalize Compiler.separated (separator.map fun s => c.literal (.utf8 s)) ts = parts at *
      generalize c.separatedTrees separator xs = trees at *
      cases hparts with
      | nil => exact (hsome rfl).elim
      | last hpart => exact .pure ⟨_, rfl, reads_concat h.plain (.last hpart)⟩
      | cons hpart hrest => exact .pure ⟨_, rfl, reads_concat h.plain (.cons hpart hrest)⟩

section

variable (h : IsSpoken c) {args : List (Arg Operand)} {nodes : List (Arg Node)}
  (hargs : RelatedArgs (OperandRead c g) args nodes)

include h hargs

theorem isRead_apply {w : String} (hw : IsCallable w) :
    IsRead c g .closed (do return .apply w (← Compiler.values args none))
      (do return .call w (← Node.trees nodes)) := by
  refine CompileM.Ensures.bind (areRead_values hargs) ?_
  rintro ts ⟨xs, hxs, hts⟩
  exact .pure ⟨.call w xs, by rw [hxs]; rfl, reads_apply h.plain hw.1 hw.2 hts⟩

theorem isRead_between (qualifier : Option String) (function : String)
    (hclosed : ∀ e ∈ (Node.exprs nodes).take 1, (c.tail e).isOpen = false) :
    IsRead c g .closed (c.special qualifier function args none .between)
      (c.specialTree g function nodes .between) := by
  refine isRead_argument_bind hargs function 0 _ fun n t x hn hx ht => ?_
  refine isRead_argument_bind hargs function 1 _ fun n' u y _ hy hu => ?_
  refine isRead_argument_bind hargs function 2 _ fun n'' v z _ hz hv => ?_
  have hclosed := hclosed n.expr (Node.mem_take_exprs hn)
  refine .pure ⟨.between x y z, ?_, ht.between h.plain hclosed hu hv⟩
  rw [Compiler.specialTree, hx, hy, hz]
  rfl

theorem isRead_substr (qualifier : Option String) (function : String) :
    IsRead c g .closed (c.special qualifier function args none .substr)
      (c.specialTree g function nodes .substr) := by
  refine (ensures_argument hargs function 0).bind ?_
  rintro string ⟨n, hn, hstring⟩
  refine (ensures_argument hargs function 1).bind ?_
  rintro first ⟨n', hn', hfirst⟩
  refine CompileM.Ensures.bind (.attempt fun _ hstart => hstart) fun start hstart => ?_
  refine (ensures_argument hargs function 2).bind ?_
  rintro last ⟨n'', hn'', hlast⟩
  refine CompileM.Ensures.bind (.attempt fun _ hstop => hstop) fun stop hstop => ?_
  refine CompileM.Ensures.bind hstring.value ?_
  rintro t ⟨x, hx, ht⟩
  rw [hfirst.expr] at hstart
  rw [hlast.expr] at hstop
  refine .pure ⟨_, ?_, reads_substring h ht.alone start _⟩
  simp [Compiler.specialTree, Node.tree?, hn, hn', hn'', hx, hstart, hstop, Except.toOption]

theorem isRead_special (qualifier : Option String) (function : String) (form : SpecialForm)
    (htypes : ∀ w ∈ (SqlForm.special form).types, IsWord w)
    (hnonempty : (SqlForm.special form).needsArgument = true → args ≠ [])
    (hclosed : ∀ e ∈ c.leadingArguments (Node.exprs nodes) (.special form),
      (c.tail e).isOpen = false) :
    IsRead c g .closed (c.special qualifier function args none form)
      (c.specialTree g function nodes form) := by
  cases form with
  | conditional =>
      refine CompileM.Ensures.bind (.attempt fun choice hchoice =>
        (Choice.related_ofArgs hargs).exists_of_ok hchoice) ?_
      rintro choice ⟨other, hother, hrelated⟩
      rw [Compiler.specialTree, hother]
      refine isRead_conditional h hrelated.condition.value hrelated.value.value ?_
      have hotherwise := hrelated.otherwise
      generalize choice.otherwise = m at hotherwise ⊢
      generalize other.otherwise = z at hotherwise ⊢
      cases hotherwise with
      | none => exact .none
      | some ho => exact .some ⟨_, ho.value⟩
  | isNull =>
      refine isRead_argument_bind hargs function 0 _ fun n t x _ hx ht => ?_
      refine .pure ⟨.isNull x, ?_, ht.isNull h.plain⟩
      rw [Compiler.specialTree, hx]
      rfl
  | between => exact isRead_between h hargs qualifier function hclosed
  | inSet =>
      refine (ensures_argument hargs function 0).bind ?_
      rintro operand ⟨n, hn, hoperand⟩
      refine (ensures_argument hargs function 1).bind ?_
      rintro items ⟨n', hn', hitems⟩
      have hlead : items.candidates.hasAny = true → (c.tail n.expr).isOpen = false := by
        intro hany
        rw [hitems.hasAny_eq, Bool.not_eq_true'] at hany
        refine hclosed n.expr ?_
        rw [Compiler.leadingArguments, Node.getElem?_exprs hn', Option.any_some, hany]
        exact Node.mem_take_exprs hn
      rw [Compiler.specialTree, Node.tree?, hn, hn']
      exact isRead_membership h hoperand.value hlead hitems.candidates
  | nDistinct =>
      have hsome := ensures_values_ne_nil (hnonempty rfl)
      refine CompileM.Ensures.bind ((areRead_values hargs).and hsome) ?_
      rintro ts ⟨⟨xs, hxs, hts⟩, hsome⟩
      refine .pure ⟨.callDistinct "COUNT" xs, ?_, reads_countDistinct h.plain hts hsome⟩
      rw [Compiler.specialTree, hxs]
      rfl
  | nullIf => exact isRead_apply h hargs (by decide)
  | substr => exact isRead_substr h hargs qualifier function
  | pmin => exact isRead_apply h hargs (by decide)
  | pmax => exact isRead_apply h hargs (by decide)
  | logBase =>
      refine isRead_argument_bind hargs function 0 _ fun n t x _ hx ht => ?_
      refine isRead_argument_bind hargs function 1 _ fun n' u y _ hy hu => ?_
      have hlog : ∀ {tail} {t : Term} {x : Tree}, Reads c.dialect g tail t x →
          Reads c.dialect g .closed (.apply "LOG" [t]) (.call "LOG" [x]) := fun ht =>
        reads_apply h.plain (by decide) (by decide) (.cons ht.alone .nil)
      refine .pure ⟨_, ?_, (hlog ht).binary h.plain (isInfix_sql .div) (hlog hu) (.inr rfl)⟩
      rw [Compiler.specialTree, hx, hy]
      rfl
  | length =>
      refine isRead_argument_bind hargs function 0 _ fun n t x _ hx ht => ?_
      refine .pure ⟨.call c.dialect.lengthFunction [x], ?_,
        reads_apply h.plain h.length.1 h.length.2 (.cons ht.alone .nil)⟩
      rw [Compiler.specialTree, hx]
      rfl
  | concat separator =>
      have hparts : (Compiler.values args none).Ensures fun ts => c.dialect.concat = .operator →
          ∃ xs, Node.trees nodes = some xs ∧
            ForallToLast (ReadsPart c.dialect g false) (ReadsPart c.dialect g true) ts xs := by
        intro _ _ _ hrun hoperator
        refine ensures_parts hargs (fun e he => hclosed e ?_) _ _ _ hrun
        rwa [Compiler.leadingArguments, hoperator]
      refine CompileM.Ensures.bind
        (((areRead_values hargs).and hparts).and (ensures_values_ne_nil (hnonempty rfl))) ?_
      rintro ts ⟨⟨⟨xs, hxs, hts⟩, hparts⟩, hsome⟩
      rw [Compiler.specialTree, hxs]
      refine isRead_concat h separator hts (fun hoperator => ?_) hsome
      obtain ⟨ys, hys, hparts⟩ := hparts hoperator
      rwa [Option.some.inj (hxs.symm.trans hys)]
  | cast type =>
      refine isRead_argument_bind hargs function 0 _ fun n t x _ hx ht => ?_
      refine .pure ⟨.cast x type, ?_,
        reads_cast h.plain (htypes type (by simp [SqlForm.types])) ht.alone⟩
      rw [Compiler.specialTree, hx]
      rfl
  | descending => exact .throw _

theorem isRead_writeAs (qualifier : Option String) (function : String) (form : SqlForm)
    (hfunctions : ∀ w ∈ form.functions, IsCallable w) (htypes : ∀ w ∈ form.types, IsWord w)
    (hnonempty : form.needsArgument = true → args ≠ [])
    (hclosed : ∀ e ∈ c.leadingArguments (Node.exprs nodes) form, (c.tail e).isOpen = false) :
    IsRead c g (c.formTail (Node.exprs nodes) form) (c.writeAs qualifier function args none form)
      (c.formTree g function nodes form) := by
  have hwindow : (Compiler.requireWindow function none).Ensures fun _ => False := .throw _
  cases form with
  | binary op =>
      refine isRead_argument_bind hargs function 0 _ fun n t x hn hx ht => ?_
      refine isRead_argument_bind hargs function 1 _ fun n' u y _ hy hu => ?_
      have hguards : guards op.sql = true ∨ (c.tail n.expr).isOpen = false := by
        rw [or_iff_not_imp_left]
        intro hop
        refine hclosed n.expr ?_
        rw [Compiler.leadingArguments, if_neg hop]
        exact Node.mem_take_exprs hn
      refine .pure ⟨.binary op.sql x y, ?_, ht.binary h.plain (isInfix_sql op) hu hguards⟩
      rw [Compiler.formTree, hx, hy]
      rfl
  | unary op =>
      cases op with
      | not =>
          refine isRead_argument_bind hargs function 0 _ fun n t x _ hx ht => ?_
          refine .pure ⟨.not x, ?_, ht.not h.plain⟩
          rw [Compiler.formTree, hx]
          rfl
      | negate =>
          refine isRead_argument_bind hargs function 0 _ fun n t x hn hx ht => ?_
          have htail : c.formTail (Node.exprs nodes) (.unary .negate) = (c.tail n.expr).negate := by
            rw [Compiler.negate_tail, Compiler.formTail, List.head?_eq_getElem?,
              Node.getElem?_exprs hn]
            rfl
          rw [htail]
          refine .pure ⟨.negate x, ?_, ht.negate h.plain⟩
          rw [Compiler.formTree, hx]
          rfl
  | scalar sql | aggregate sql =>
      exact isRead_apply h hargs (hfunctions sql (by simp [SqlForm.functions]))
  | countStar => exact .pure ⟨.callAll "COUNT", rfl, reads_countStar h.plain⟩
  | ranking | offset | cumulative | ntile => exact CompileM.Ensures.bind hwindow fun _ => False.elim
  | special form => exact isRead_special h hargs qualifier function form htypes hnonempty hclosed

end

/-- A function that the table does not know is called as it is. -/
theorem isRead_verbatim (h : IsSpoken c) {args : List (Arg Operand)} {nodes : List (Arg Node)}
    (hargs : RelatedArgs (OperandRead c g) args nodes) {function : String}
    (hcallable : IsCallable function) (hcustom : Compiler.customOperator? function = none) :
    IsRead c g .closed (c.verbatim function args none)
      (do return .call function (← Node.trees nodes)) := by
  unfold Compiler.verbatim
  by_cases hstrict : c.config.strictSql = true
  · rw [if_pos hstrict]
    exact CompileM.Ensures.bind (.throw _) fun _ (hfalse : False) => hfalse.elim
  · rw [if_neg hstrict]
    refine CompileM.Ensures.bind_any fun _ => ?_
    rw [hcustom]
    exact isRead_apply h hargs hcallable

theorem isRead_call (h : IsSpoken c) {args : List (Arg Operand)} {nodes : List (Arg Node)}
    (hargs : RelatedArgs (OperandRead c g) args nodes) (qualifier : Option String)
    (function : String)
    (hspelled : c.functions.lookup function args.length = .unknown →
      IsCallable function ∧ Compiler.customOperator? function = none)
    (hclosed : ∀ form ∈ c.functions.form? function args.length,
      ∀ e ∈ c.leadingArguments (Node.exprs nodes) form, (c.tail e).isOpen = false) :
    IsRead c g (c.callTail function (Node.exprs nodes)) (c.call qualifier function args none)
      (c.callTree g function nodes) := by
  have hlength : (Node.exprs nodes).length = args.length := by
    rw [Node.exprs, List.length_map, hargs.length_eq]
  rw [Compiler.call, Compiler.callTree, Compiler.callTail, hlength, ← hargs.length_eq]
  cases hlookup : c.functions.lookup function args.length with
  | unknown =>
      obtain ⟨hcallable, hcustom⟩ := hspelled hlookup
      rw [FunctionTable.form?, hlookup]
      exact isRead_verbatim h hargs hcallable hcustom
  | wrongArity known => exact .throw _
  | found entry =>
      obtain ⟨hentry, _, haccepts⟩ := FunctionTable.name_eq_of_lookup_found hlookup
      have hform : c.functions.form? function args.length = some entry.form := by
        rw [FunctionTable.form?, hlookup]
      have hnonempty : entry.form.needsArgument = true → args ≠ [] := by
        rintro hneeds rfl
        rw [List.length_nil, h.nonempty entry hentry hneeds] at haccepts
        cases haccepts
      have hwrite := isRead_writeAs h hargs qualifier function entry.form
        (h.functions entry hentry) (h.types entry hentry) hnonempty (hclosed entry.form hform)
      rw [hform]
      dsimp only
      split
      · exact CompileM.Ensures.bind_any fun _ => hwrite
      · exact hwrite

end Syntax

end SqlChain
