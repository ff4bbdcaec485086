import SqlChain.Proofs.Syntax.Call

/-!
# Expressions that are read back

What an expression compiles to is read as the operator tree of the expression, whatever a grammar makes
of the operators beyond what is asked of it. The induction is on the expression, and goes along with
the tree.
-/

namespace SqlChain.Syntax

open Grammar

variable {c : Compiler} {g : Grammar}

/-- Every function is known, and nothing but `AND` and `OR` stands beside a bare `NOT`. -/
structure IsCovered (c : Compiler) (e : Expr) : Prop where
  known : e.any c.isForeign = false
  apart : e.any c.hasBareNot = false

theorem IsCovered.isSheltered {e : Expr} (h : IsCovered c e) : IsSheltered c e := by
  obtain ⟨hknown, hapart⟩ := h
  have hc : IsCallable "c" ∧ Compiler.customOperator? "c" = none := by decide
  induction e using Expr.induct with
  | step e ih =>
    obtain ⟨hforeign, hknown⟩ := Expr.any_eq_false hknown
    obtain ⟨hbare, hapart⟩ := Expr.any_eq_false hapart
    have hchildren := fun child hchild => ih child hchild (hknown child hchild) (hapart child hchild)
    refine ⟨Expr.any_eq_false_of ?_ fun child hchild => (hchildren child hchild).spelled,
      Expr.any_eq_false_of ?_ fun child hchild => (hchildren child hchild).led⟩
    · cases e with
      | call function args window =>
          by_cases hfunction : function = "c"
          · subst hfunction
            simp [Compiler.isMisspelt, hc]
          · have hlookup : (c.functions.lookup function args.length == .unknown) = false := by
              simpa [Compiler.isForeign, hfunction] using hforeign
            rw [Compiler.isMisspelt, hlookup, Bool.false_and]
      | _ => rfl
    · rw [Compiler.hasLeadingNot, List.any_eq_false]
      intro operand hoperand hopen
      have hmem := Compiler.mem_bareOperands hoperand
      rcases Compiler.isNot_of_tail_isOpen hopen with hnot | hinner
      · exact List.any_eq_false.1 hbare operand hmem hnot
      · have hnone := (Expr.any_eq_false (hapart operand (Compiler.mem_children hmem))).1
        rw [hnone] at hinner
        cases hinner

theorem IsSheltered.lookup {function : String} {args : List (Arg Expr)} {window : Bool}
    (h : IsSheltered c (.call function args window))
    (hlookup : c.functions.lookup function args.length = .unknown) :
    IsCallable function ∧ Compiler.customOperator? function = none := by
  have hnone := (Expr.any_eq_false h.spelled).1
  simpa [Compiler.isMisspelt, hlookup] using hnone

theorem areRead_each {inner : List (Arg Operand)} {nodes : List (Arg Node)}
    (hinner : RelatedArgs (OperandRead c g) inner nodes) :
    AreRead c g ((inner.map fun arg => arg.value.value).mapM fun item => item none)
      (Node.trees nodes) := by
  refine ensures_mapM_some ?_
  rw [List.forall₂_map_left_iff]
  refine hinner.imp fun arg node harg => harg.2.value.imp ?_
  rintro t ⟨x, hx, ht⟩
  exact ⟨x, hx, ht.alone⟩

theorem areRead_singleton {m : Compiled} {tail : Tail} {tree : Option Tree}
    (hm : IsRead c g tail (m none) tree) :
    AreRead c g ([m].mapM fun item => item none) (tree.map ([·])) := by
  rw [List.mapM_cons, List.mapM_nil]
  refine CompileM.Ensures.bind hm ?_
  rintro t ⟨x, rfl, ht⟩
  exact .pure ⟨[x], rfl, .cons ht.alone .nil⟩

theorem candidatesRead_value {m : Compiled} {tail : Tail} {tree : Option Tree}
    (hm : IsRead c g tail (m none) tree) : CandidatesRead c g (tree.map ([·])) (.value m) := by
  refine CompileM.Ensures.imp hm ?_
  rintro t ⟨x, rfl, ht⟩
  exact ⟨x, rfl, tail, ht⟩

theorem operandRead_of (qualifier : Option String) {e : Expr} {m : Compiled} {tree : Option Tree}
    (hm : IsRead c g (c.tail e) (m none) tree) {nodes : List (Arg Node)}
    (hinner : RelatedArgs (OperandRead c g) (c.operandsWithin qualifier e) nodes) :
    OperandRead c g (.of e m (c.operandsWithin qualifier e)) (.of e tree nodes) where
  expr := rfl
  value := hm
  hasAny_eq := Compiler.hasAny_of qualifier e m
  candidates := by
    have hvalue := candidatesRead_value hm
    cases e with
    | call function args window =>
        by_cases hc : function = "c"
        · subst hc
          exact areRead_each hinner
        · simpa [Operand.of, Node.of, hc] using hvalue
    | literal value => exact areRead_singleton hm
    | _ => exact hvalue

theorem isRead_term (h : IsSpoken c) (qualifier : Option String) (e : Expr)
    (he : IsSheltered c e) :
    IsRead c g (c.tail e) (c.term qualifier e none) (c.tree? g qualifier e) ∧
      RelatedArgs (OperandRead c g) (c.operandsWithin qualifier e)
        (c.nodesWithin g qualifier e) := by
  induction e using Expr.induct with
  | step e ih =>
    have hchild := fun child (hchild : child ∈ e.children) => ih child hchild (he.child hchild)
    cases e with
    | column name =>
        refine ⟨?_, .nil⟩
        rw [Compiler.term, Compiler.tree?]
        refine CompileM.Ensures.bind (.attempt fun _ hquoted => hquoted) fun quoted hquoted => ?_
        exact .pure ⟨_, rfl, reads_column h.plain hquoted⟩
    | literal value =>
        refine ⟨?_, .nil⟩
        rw [Compiler.term, Compiler.tree?]
        exact .pure ⟨_, rfl, reads_scalar h value⟩
    | call function args window =>
        have hargs : RelatedArgs (OperandRead c g) (c.operands qualifier args)
            (c.nodes g qualifier args) := by
          rw [Compiler.operands_eq_map, Compiler.nodes_eq_map]
          refine List.forall₂_map_left_iff.2 (List.forall₂_map_right_iff.2 ?_)
          refine List.forall₂_same.2 fun arg harg => ⟨rfl, ?_⟩
          obtain ⟨hvalue, hinner⟩ := hchild arg.value (List.mem_map_of_mem harg)
          exact operandRead_of qualifier hvalue hinner
        refine ⟨?_, hargs⟩
        have hlength : (c.operands qualifier args).length = args.length := by
          rw [Compiler.operands_eq_map, List.length_map]
        have hexprs : Node.exprs (c.nodes g qualifier args) = args.map Arg.value := by
          rw [Node.exprs, Compiler.nodes_eq_map, List.map_map]
          rfl
        have hcall := isRead_call h hargs qualifier function (hlength ▸ he.lookup) ?_
        · rw [hexprs] at hcall
          rw [Compiler.term, Compiler.tree?, Compiler.tail]
          exact hcall
        · intro form hform operand hoperand
          rw [hlength] at hform
          refine he.isOpen_eq_false ?_
          rw [Compiler.leadingOperands, Option.mem_def.1 hform, ← hexprs]
          exact hoperand
    | conditional condition value otherwise =>
        have hcondition := (hchild condition (by simp [Expr.children])).1
        have hvalue := (hchild value (by simp [Expr.children])).1
        refine ⟨?_, .nil⟩
        cases otherwise with
        | none =>
            rw [Compiler.term, Compiler.tree?]
            exact isRead_conditional h hcondition hvalue .none
        | some otherwise =>
            have hotherwise := (hchild otherwise (by simp [Expr.children])).1
            rw [Compiler.term, Compiler.tree?]
            exact isRead_conditional h hcondition hvalue (.some ⟨_, hotherwise⟩)
    | inList operand candidates =>
        have hoperand := (hchild operand (by simp [Expr.children])).1
        refine ⟨?_, .nil⟩
        rw [Compiler.term, Compiler.tree?, Compiler.terms_eq_map, Compiler.trees_eq_mapM]
        have hclosed : (Candidates.each (candidates.map (c.term qualifier))).hasAny = true →
            (c.tail operand).isOpen = false := by
          intro hany
          refine he.isOpen_eq_false ?_
          rw [Candidates.hasAny, List.isEmpty_map, Bool.not_eq_true'] at hany
          simp [Compiler.leadingOperands, hany]
        refine isRead_membership h hoperand hclosed (?_ : CandidatesRead c g _ (.each _))
        refine ensures_mapM_some (List.forall₂_map_left_iff.2 (List.forall₂_same.2 fun e he => ?_))
        refine (hchild e (List.mem_cons_of_mem _ he)).1.imp ?_
        rintro t ⟨x, hx, ht⟩
        exact ⟨x, hx, ht.alone⟩
    | inExpr operand candidates =>
        have hoperand := (hchild operand (by simp [Expr.children])).1
        have hcandidates := (hchild candidates (by simp [Expr.children])).1
        have hclosed : (c.tail operand).isOpen = false :=
          he.isOpen_eq_false (by simp [Compiler.leadingOperands])
        refine ⟨?_, .nil⟩
        rw [Compiler.term, Compiler.tree?]
        exact isRead_membership h hoperand (fun _ => hclosed) (candidatesRead_value hcandidates)
    | binary op left right =>
        have hleft := (hchild left (by simp [Expr.children])).1
        have hright := (hchild right (by simp [Expr.children])).1
        have hguards : guards op.sql = true ∨ (c.tail left).isOpen = false := by
          rw [or_iff_not_imp_left]
          intro hop
          exact he.isOpen_eq_false (by simp [Compiler.leadingOperands, hop])
        refine ⟨?_, .nil⟩
        rw [Compiler.term, Compiler.tree?]
        refine CompileM.Ensures.bind hleft ?_
        rintro t ⟨x, hx, ht⟩
        refine CompileM.Ensures.bind hright ?_
        rintro u ⟨y, hy, hu⟩
        exact .pure ⟨.binary op.sql x y, by rw [hx, hy]; rfl,
          ht.binary h.plain (isInfix_sql op) hu hguards⟩
    | unary op operand =>
        have hoperand := (hchild operand (by simp [Expr.children])).1
        refine ⟨?_, .nil⟩
        cases op with
        | not =>
            rw [Compiler.term, Compiler.tree?]
            refine CompileM.Ensures.bind hoperand ?_
            rintro t ⟨x, hx, ht⟩
            exact .pure ⟨.not x, by rw [hx]; rfl, ht.not h.plain⟩
        | negate =>
            have htail : c.tail (.unary .negate operand) = (c.tail operand).negate := by
              rw [Compiler.negate_tail]
              rfl
            rw [Compiler.term, Compiler.tree?, htail]
            refine CompileM.Ensures.bind hoperand ?_
            rintro t ⟨x, hx, ht⟩
            exact .pure ⟨.negate x, by rw [hx]; rfl, ht.negate h.plain⟩

/-! ## Texts -/

theorem parse_of_readsText {d : Dialect} {s : String} {x : Tree} (hs : ReadsText d g s x) :
    g.parse d s = some x := by
  obtain ⟨xs, hlexes, hread⟩ := hs
  have hexpr := hread (2 * xs.length + 1) [] (Nat.le_refl _) ends_nil
  rw [List.append_nil] at hexpr
  rw [Grammar.parse, lexemes_of_lexes hlexes]
  simp [hexpr]

theorem ensures_parse (h : IsSpoken c) (qualifier : Option String) {e : Expr}
    (he : IsSheltered c e) :
    (c.compile ⟨none, qualifier⟩ e).Ensures fun text =>
      ∃ tree, c.tree? g qualifier e = some tree ∧ g.parse c.dialect text = some tree ∧
        g.parse c.dialect (Term.parenthesisedIf (c.isOperation e) text) = some tree := by
  have hread := (isRead_term (g := g) h qualifier e he).1
  have hoperation := Compiler.ensures_isOperation (c := c) qualifier e none
  refine CompileM.Ensures.bind (hread.and hoperation) ?_
  rintro t ⟨⟨x, hx, ht⟩, hsame⟩
  refine .pure ⟨x, hx, parse_of_readsText ht.alone, ?_⟩
  rw [← hsame, ← Term.text_true]
  exact parse_of_readsText ht.operand.readsText

/-- The text of an expression reads back as the expression, by itself and as an operand. As an operand
every expression has the text that it has by itself, and operations are in one pair of parentheses
there. -/
theorem parse_compile (b : Backend) (config : Config) (g : Grammar) (qualifier : Option String)
    {e : Expr} (he : IsCovered (.builtin b.dialect config) e) {before after : List Warning}
    {text : String}
    (hcompile : ((Compiler.builtin b.dialect config).compile ⟨none, qualifier⟩ e).run.run before =
      (.ok text, after)) :
    let c := Compiler.builtin b.dialect config
    (∃ tree, c.tree? g qualifier e = some tree ∧ g.parse b.dialect text = some tree ∧
      g.parse b.dialect (Term.parenthesisedIf (c.isOperation e) text) = some tree) ∧
    ∀ (context : Context) (operand : Expr),
      c.compileOperand context operand =
        Term.parenthesisedIf (c.isOperation operand) <$> c.compile context operand := by
  intro c
  refine ⟨?_, Compiler.compileOperand_eq⟩
  exact ensures_parse (isSpoken_builtin b config) qualifier he.isSheltered before text after
    hcompile

/-- The usual order of the operators, with concatenations grouped to the right. -/
def Grammar.usual : Grammar where
  level op :=
    if op = "OR" then 1
    else if op = "AND" then 2
    else if op ∈ ["+", "-", "||"] then 5
    else if op ∈ ["*", "/", "%"] then 6
    else 4
  groupsRight op := op == "||"
  notLevel := 3
  and_lt := by decide
  or_lt := by decide

def nested : Expr :=
  .binary .and (.unary .not (.binary .lt (.column "a") (.literal (.int64 (-1)))))
    (.binary .eq
      (.binary .mul (.unary .negate (.column "a")) (.binary .add (.column "b") (.column "c")))
      (.plainCall "paste" [.column "s", .literal (.utf8 "it's")]))

def nestedText : String :=
  "NOT(\"t\".\"a\" < -1) AND ((-\"t\".\"a\" * (\"t\".\"b\" + \"t\".\"c\")) = " ++
    "(\"t\".\"s\" || ' ' || 'it''s'))"

theorem compile_nested :
    ((Compiler.builtin .ansi .default).compile (.qualified "t") nested).run.run [] =
      (.ok nestedText, []) := by
  rfl

theorem parse_compile_nested :
    IsCovered (.builtin .ansi .default) nested ∧
      ((Compiler.builtin .ansi .default).compile (.qualified "t") nested).run.run [] =
        (.ok nestedText, []) ∧
      Grammar.usual.parse .ansi nestedText = some
        (.binary "AND" (.not (.binary "<" (.column (some "t") "a") (.negate (.literal "1"))))
          (.binary "="
            (.binary "*" (.negate (.column (some "t") "a"))
              (.binary "+" (.column (some "t") "b") (.column (some "t") "c")))
            (.binary "||" (.column (some "t") "s")
              (.binary "||" (.literal "' '") (.literal "'it''s'"))))) := by
  have hcovered : IsCovered (.builtin .ansi .default) nested :=
    ⟨by decide +kernel, by decide +kernel⟩
  obtain ⟨⟨tree, htree, hparse, _⟩, _⟩ :=
    parse_compile .ansi .default .usual (some "t") hcovered compile_nested
  exact ⟨hcovered, compile_nested, hparse.trans (htree.symm.trans rfl)⟩

end SqlChain.Syntax
