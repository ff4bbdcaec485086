import SqlChain.Plan.Basic
import SqlChain.Plan.Encode
import SqlChain.Proofs.Plan.Text
import SqlChain.Proofs.Timestamp

/-!
# Queries that are decoded again

What a query is written as is decoded to that query, under every spelling and to any depth, as long
as its literals can be written: the floats are finite and the local years of the timestamps have
four digits. The steps that decoding an expression may take are bounded by the depth of the value.
-/

namespace SqlChain

/-! ## Literals that can be written -/

namespace Scalar

def isWritable : Scalar → Bool
  | .float64 x => x.isFinite
  | .timestamp t => t.isPlain
  | _ => true

end Scalar

namespace Expr

def isUnwritable : Expr → Bool
  | .literal value => !value.isWritable
  | _ => false

/-- Every literal of the expression can be written. -/
def IsWritable (e : Expr) : Prop := e.any isUnwritable = false

instance (e : Expr) : Decidable e.IsWritable := inferInstanceAs (Decidable (_ = _))

theorem encodeArgs_eq (args : List (Arg Expr)) :
    encodeArgs args = args.map fun arg => encodeArg arg.name arg.value.encode := by
  induction args with
  | nil => rfl
  | cons arg args ih => rw [encodeArgs, ih, List.map_cons]

theorem encodeList_eq (es : List Expr) : encodeList es = es.map encode := by
  induction es with
  | nil => rfl
  | cons e es ih => rw [encodeList, ih, List.map_cons]

theorem exists_encode (e : Expr) : ∃ key body, e.encode = .object [(key, body)] := by
  cases e with
  | conditional condition value otherwise => cases otherwise <;> exact ⟨_, _, rfl⟩
  | _ => exact ⟨_, _, rfl⟩

theorem IsWritable.child {e c : Expr} (h : e.IsWritable) (hc : c ∈ e.children) : c.IsWritable :=
  (any_eq_false h).2 c hc

end Expr

namespace Op

/-- The expressions that an operation is given. -/
def exprs : Op → List Expr
  | .filter predicates => predicates
  | .mutate assignments | .summarise assignments => assignments.map Prod.snd
  | .arrange keys => keys
  | _ => []

def IsWritable (op : Op) : Prop := ∀ e ∈ op.exprs, e.IsWritable

instance (op : Op) : Decidable op.IsWritable :=
  inferInstanceAs (Decidable (∀ e ∈ op.exprs, e.IsWritable))

end Op

namespace Query

def IsWritable (q : Query) : Prop := ∀ op ∈ q.ops, op.IsWritable

instance (q : Query) : Decidable q.IsWritable :=
  inferInstanceAs (Decidable (∀ op ∈ q.ops, op.IsWritable))

end Query

/-! ## Scalars -/

namespace Json

theorem int64?_integer (n : Int64) : (Json.integer n.toInt).int64? = some n := by
  have hleast := minValue_toInt_le n
  have hmost := toInt_le_maxValue n
  simp only [int64?, integer, integerBetween?, hleast, hmost, and_self, if_true, Option.map_some,
    Int64.ofInt_toInt]

theorem listOf?_map {α : Type} {decode : Json → Option α} {encode : α → Json} {xs : List α}
    (h : ∀ x ∈ xs, decode (encode x) = some x) :
    listOf? decode (.array (xs.map encode)) = some xs := by
  have hmap : (xs.map encode).mapM decode = some xs := by
    induction xs with
    | nil => rfl
    | cons x xs ih =>
      have hx := h x (by simp)
      have hxs := ih fun x hx => h x (List.mem_cons_of_mem _ hx)
      rw [List.map_cons, List.mapM_cons, hx, hxs]
      rfl
  exact hmap

theorem strings?_strings (items : List String) : (Json.strings items).strings? = some items :=
  listOf?_map fun _ _ => rfl

end Json

namespace Spelling

variable (sp : Spelling)

theorem scalar?_encode {value : Scalar} (h : value.isWritable = true) :
    sp.scalar? value.encode = some value := by
  cases value with
  | null => rfl
  | boolean b => rfl
  | int64 n => simp [Scalar.encode, Json.tagged, scalar?, Json.int64?_integer]
  | float64 x =>
    have hx : x.isFinite = true := h
    simp [Scalar.encode, Json.tagged, scalar?, hx, float?]
  | utf8 s => rfl
  | timestamp t =>
    have ht : Timestamp.ofText? t.briefText = some t := Timestamp.ofText?_briefText h
    simp [Scalar.encode, Json.tagged, scalar?, Json.string?, ht]

/-! ## Expressions -/

theorem listOf?_encodeList {fuel : Nat} {es : List Expr}
    (h : ∀ e ∈ es, sp.exprWithin? fuel e.encode = some e) :
    Json.listOf? (sp.exprWithin? fuel) (.array (Expr.encodeList es)) = some es := by
  rw [Expr.encodeList_eq]
  exact Json.listOf?_map h

theorem argWithin?_encodeArg {fuel : Nat} {arg : Arg Expr}
    (h : sp.exprWithin? fuel arg.value.encode = some arg.value) :
    sp.argWithin? (fuel + 1) (Expr.encodeArg arg.name arg.value.encode) = some arg := by
  obtain ⟨name, value⟩ := arg
  cases name with
  | none =>
    simp [argWithin?, Expr.encodeArg, Json.ofFields, Json.fields?, Fields.optional,
      Fields.required, Fields.find?, h]
  | some name =>
    simp [argWithin?, Expr.encodeArg, Json.ofFields, Json.fields?, Fields.optional,
      Fields.required, Fields.find?, Json.string?, h]

theorem listOf?_encodeArgs (fuel : Nat) {args : List (Arg Expr)}
    (h : ∀ arg ∈ args, sp.exprWithin? fuel arg.value.encode = some arg.value) :
    Json.listOf? (sp.argWithin? (fuel + 1)) (.array (Expr.encodeArgs args)) = some args := by
  rw [Expr.encodeArgs_eq]
  exact Json.listOf?_map fun arg hmem => sp.argWithin?_encodeArg (h arg hmem)

theorem depth_encodeArgs {args : List (Arg Expr)} {arg : Arg Expr} (h : arg ∈ args) :
    arg.value.encode.depth < Json.depthOfItems (Expr.encodeArgs args) := by
  induction args with
  | nil => cases h
  | cons first rest ih =>
    rw [Expr.encodeArgs, Json.depthOfItems]
    rcases List.mem_cons.1 h with rfl | h
    · cases arg.name <;> simp [Expr.encodeArg, Json.ofFields, Json.depth, Json.depthOfFields]
    · exact lt_max_of_lt_right (ih h)

theorem depth_encodeList {es : List Expr} {e : Expr} (h : e ∈ es) :
    e.encode.depth ≤ Json.depthOfItems (Expr.encodeList es) := by
  induction es with
  | nil => cases h
  | cons first rest ih =>
    rw [Expr.encodeList, Json.depthOfItems]
    rcases List.mem_cons.1 h with rfl | h
    · exact le_max_left _ _
    · exact le_max_of_le_right (ih h)

theorem exprWithin?_encode (e : Expr) :
    e.IsWritable → ∀ fuel, e.encode.depth < fuel → sp.exprWithin? fuel e.encode = some e := by
  induction e using Expr.induct with
  | step e ih =>
    intro he fuel hfuel
    obtain ⟨fuel, rfl⟩ := Nat.exists_eq_succ_of_ne_zero (by omega : fuel ≠ 0)
    have hchild (c : Expr) (hc : c ∈ e.children) (hdepth : c.encode.depth < fuel) :
        sp.exprWithin? fuel c.encode = some c := ih c hc (he.child hc) fuel hdepth
    cases e with
    | column name => rfl
    | literal value =>
      have hvalue : value.isWritable = true := by
        simpa [Expr.IsWritable, Expr.any, Expr.isUnwritable] using he
      simp [Expr.encode, Json.tagged, exprWithin?, sp.scalar?_encode hvalue]
    | call function args window =>
      simp only [Expr.encode, Json.tagged, Json.depth, Json.depthOfFields] at hfuel ⊢
      have hdepth : Json.depthOfItems (Expr.encodeArgs args) + 2 < fuel := by omega
      obtain ⟨below, rfl⟩ := Nat.exists_eq_succ_of_ne_zero (by omega : fuel ≠ 0)
      have hargs := sp.listOf?_encodeArgs below fun arg (hmem : arg ∈ args) =>
        ih arg.value (List.mem_map_of_mem hmem) (he.child (List.mem_map_of_mem hmem)) below
          (by have := depth_encodeArgs hmem; omega)
      simp [exprWithin?, Json.fields?, Fields.required, Fields.defaulted, Fields.find?,
        Json.string?, Json.bool?, hargs]
    | conditional condition value otherwise =>
      cases otherwise with
      | none =>
        simp only [Expr.encode, Json.tagged, Json.depth, Json.depthOfFields] at hfuel ⊢
        have hcondition := hchild condition (by simp [Expr.children]) (by omega)
        have hvalue := hchild value (by simp [Expr.children]) (by omega)
        simp [exprWithin?, Json.fields?, Fields.required, Fields.optional, Fields.find?,
          hcondition, hvalue]
      | some otherwise =>
        simp only [Expr.encode, Json.tagged, Json.depth, Json.depthOfFields] at hfuel ⊢
        have hcondition := hchild condition (by simp [Expr.children]) (by omega)
        have hvalue := hchild value (by simp [Expr.children]) (by omega)
        have hotherwise := hchild otherwise (by simp [Expr.children]) (by omega)
        -- the value of an option must not look like an absent one
        obtain ⟨key, body, hobject⟩ := otherwise.exists_encode
        rw [hobject] at hotherwise ⊢
        simp [exprWithin?, Json.fields?, Fields.required, Fields.optional, Fields.find?,
          hcondition, hvalue, hotherwise]
    | inList operand candidates =>
      simp only [Expr.encode, Json.tagged, Json.depth, Json.depthOfFields] at hfuel ⊢
      have hoperand := hchild operand (by simp [Expr.children]) (by omega)
      obtain ⟨below, rfl⟩ := Nat.exists_eq_succ_of_ne_zero (by omega : fuel ≠ 0)
      have hcandidates := sp.listOf?_encodeList fun c (hmem : c ∈ candidates) =>
        ih c (by simp [Expr.children, hmem]) (he.child (by simp [Expr.children, hmem])) below
          (by have := depth_encodeList hmem; omega)
      simp [exprWithin?, membershipWithin?, Json.fields?, Fields.required, Fields.find?, hoperand,
        hcandidates]
    | inExpr operand candidates =>
      simp only [Expr.encode, Json.tagged, Json.depth, Json.depthOfFields] at hfuel ⊢
      have hoperand := hchild operand (by simp [Expr.children]) (by omega)
      obtain ⟨below, rfl⟩ := Nat.exists_eq_succ_of_ne_zero (by omega : fuel ≠ 0)
      have hcandidates := ih candidates (by simp [Expr.children])
        (he.child (by simp [Expr.children])) below (by omega)
      simp [exprWithin?, membershipWithin?, Json.fields?, Fields.required, Fields.find?, hoperand,
        hcandidates]
    | binary op left right =>
      simp only [Expr.encode, Json.tagged, Json.depth, Json.depthOfFields] at hfuel ⊢
      have hleft := hchild left (by simp [Expr.children]) (by omega)
      have hright := hchild right (by simp [Expr.children]) (by omega)
      simp [exprWithin?, Json.fields?, Fields.required, Fields.find?, name?, BinaryOp.ofKey?_key,
        hleft, hright]
    | unary op operand =>
      simp only [Expr.encode, Json.tagged, Json.depth, Json.depthOfFields] at hfuel ⊢
      have hoperand := hchild operand (by simp [Expr.children]) (by omega)
      simp [exprWithin?, Json.fields?, Fields.required, Fields.find?, name?, UnaryOp.ofKey?_key,
        hoperand]

theorem expr?_encode {e : Expr} (h : e.IsWritable) : sp.expr? e.encode = some e :=
  sp.exprWithin?_encode e h _ (Nat.lt_succ_self _)

/-! ## Operations -/

theorem ident?_encode (i : Ident) : ident? i.encode = some i := by
  obtain ⟨name, newName⟩ := i
  cases newName <;>
    simp [ident?, Ident.encode, Json.ofFields, Json.fields?, Fields.required, Fields.optional,
      Fields.find?, Json.string?]

theorem pair?_encodePair (pair : String × String) :
    pair? Json.string? (Op.encodePair pair) = some pair := rfl

theorem pair?_encodeAssignment {assignment : String × Expr} (h : assignment.2.IsWritable) :
    pair? sp.expr? (Op.encodeAssignment assignment) = some assignment := by
  simp [pair?, Op.encodeAssignment, Json.string?, sp.expr?_encode h]

theorem op?_encode {op : Op} (h : op.IsWritable) : sp.op? op.encode = some op := by
  cases op with
  | select idents =>
    have hidents := Json.listOf?_map fun i (_ : i ∈ idents) => ident?_encode i
    simp [op?, Op.encode, Json.tagged, hidents]
  | rename pairs =>
    have hpairs := Json.listOf?_map fun pair (_ : pair ∈ pairs) => pair?_encodePair pair
    simp [op?, Op.encode, Json.tagged, hpairs]
  | filter predicates =>
    have hpredicates := Json.listOf?_map fun e (he : e ∈ predicates) => sp.expr?_encode (h e he)
    simp [op?, Op.encode, Json.tagged, hpredicates]
  | mutate assignments =>
    have hassignments := Json.listOf?_map fun a (ha : a ∈ assignments) =>
      sp.pair?_encodeAssignment (h a.2 (List.mem_map_of_mem ha))
    simp [op?, Op.encode, Json.tagged, hassignments]
  | summarise assignments =>
    have hassignments := Json.listOf?_map fun a (ha : a ∈ assignments) =>
      sp.pair?_encodeAssignment (h a.2 (List.mem_map_of_mem ha))
    simp [op?, Op.encode, Json.tagged, hassignments]
  | arrange keys =>
    have hkeys := Json.listOf?_map fun e (he : e ∈ keys) => sp.expr?_encode (h e he)
    simp [op?, Op.encode, Json.tagged, hkeys]
  | groupBy keys add =>
    simp [op?, Op.encode, Json.tagged, Json.fields?, Fields.required, Fields.defaulted,
      Fields.find?, Json.strings?_strings, Json.bool?]
  | ungroup => rfl

/-! ## Queries -/

theorem source?_encode (s : Source) : source? s.encode = some s := by
  obtain ⟨schema, name, columns⟩ := s
  cases schema <;>
    simp [source?, Source.encode, Json.ofFields, Json.fields?, Fields.required, Fields.optional,
      Fields.find?, Json.string?, Json.strings?_strings]

theorem query?_encode {q : Query} (h : q.IsWritable) : sp.query? q.encode = some q := by
  have hops := Json.listOf?_map fun op (hop : op ∈ q.ops) => sp.op?_encode (h op hop)
  simp [query?, Query.encode, Json.fields?, Fields.required, Fields.defaulted, Fields.find?,
    source?_encode, hops]

end Spelling

end SqlChain
