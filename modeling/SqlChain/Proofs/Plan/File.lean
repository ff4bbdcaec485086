import SqlChain.Proofs.Plan.Value

/-!
# Plans that are read back

The text of a query is a plan that gives the query back, with no dialect and the default settings,
unless some part of it stands in more arrays and objects than a plan may have around it. Different
constructors are written differently, and an option that is left out is decoded as absent.
-/

namespace SqlChain

/-! ## Numbers in plans -/

namespace JsonNumber

/-- An integer that fits into 64 bits, or any float. -/
def IsWord : JsonNumber → Prop
  | .integer i => ∃ n : Int64, i = n.toInt
  | .float _ => True

end JsonNumber

namespace Json

/-- Every integer of the value fits into 64 bits. -/
def HasWords (j : Json) : Prop := ∀ n ∈ j.numbers, n.IsWord

@[simp] theorem hasWords_string (s : String) : HasWords (.string s) := fun _ h => by cases h

@[simp] theorem hasWords_bool (b : Bool) : HasWords (.bool b) := fun _ h => by cases h

@[simp] theorem hasWords_null : HasWords .null := fun _ h => by cases h

@[simp] theorem hasWords_array (items : List Json) :
    HasWords (.array items) ↔ ∀ item ∈ items, HasWords item := by
  simp only [HasWords, numbers, mem_numbersOfItems]
  constructor
  · intro h item hitem n hn
    exact h n ⟨item, hitem, hn⟩
  · rintro h n ⟨item, hitem, hn⟩
    exact h item hitem n hn

@[simp] theorem hasWords_object (fields : List (String × Json)) :
    HasWords (.object fields) ↔ ∀ field ∈ fields, HasWords field.2 := by
  simp only [HasWords, numbers, mem_numbersOfFields]
  constructor
  · intro h field hfield n hn
    exact h n ⟨field, hfield, hn⟩
  · rintro h n ⟨field, hfield, hn⟩
    exact h field hfield n hn

@[simp] theorem hasWords_strings (items : List String) : HasWords (.strings items) := by
  simp [strings]

theorem HasWords.survive {j : Json} (h : j.HasWords)
    (hfloats : ∀ x, .float x ∈ j.numbers → (JsonNumber.float x).Survives) :
    ∀ n ∈ j.numbers, n.Survives := by
  intro n hn
  cases n with
  | integer i =>
    obtain ⟨word, rfl⟩ := h _ hn
    exact JsonNumber.survives_toInt word
  | float x => exact hfloats x hn

end Json

theorem Scalar.hasWords_encode (value : Scalar) : value.encode.HasWords := by
  cases value with
  | int64 n =>
    intro number h
    obtain rfl : number = .integer n.toInt := by
      simpa [Scalar.encode, Json.tagged, Json.integer, Json.numbers, Json.numbersOfFields] using h
    exact ⟨n, rfl⟩
  | float64 x =>
    intro number h
    simp only [Scalar.encode, Json.tagged, Json.numbers, Json.numbersOfFields, List.append_nil] at h
    split at h
    · obtain rfl : number = .float x := by simpa [Json.numbers] using h
      trivial
    · cases h
  | _ => simp [Scalar.encode, Json.tagged]

theorem Expr.hasWords_encode (e : Expr) : e.encode.HasWords := by
  induction e using Expr.induct with
  | step e ih =>
    cases e with
    | column name => simp [encode, Json.tagged]
    | literal value => simp [encode, Json.tagged, value.hasWords_encode]
    | call function args window =>
      have hargs : ∀ item ∈ encodeArgs args, item.HasWords := by
        rw [encodeArgs_eq]
        intro item hitem
        obtain ⟨arg, harg, rfl⟩ := List.mem_map.1 hitem
        have hvalue := ih arg.value (List.mem_map_of_mem harg)
        cases hname : arg.name <;> simp [encodeArg, Json.ofFields, hvalue]
      simpa [encode, Json.tagged] using hargs
    | conditional condition value otherwise =>
      cases otherwise <;> simp_all [encode, Json.tagged, children]
    | inList operand candidates =>
      have hcandidates : ∀ item ∈ encodeList candidates, item.HasWords := by
        rw [encodeList_eq]
        intro item hitem
        obtain ⟨c, hc, rfl⟩ := List.mem_map.1 hitem
        exact ih c (by simp [children, hc])
      have hoperand := ih operand (by simp [children])
      simpa [encode, Json.tagged, hoperand] using hcandidates
    | inExpr operand candidates => simp_all [encode, Json.tagged, children]
    | binary op left right => simp_all [encode, Json.tagged, children]
    | unary op operand => simp_all [encode, Json.tagged, children]

theorem Op.hasWords_encode (op : Op) : op.encode.HasWords := by
  cases op with
  | rename pairs =>
    have h : ∀ pair ∈ pairs, (encodePair pair).HasWords := fun pair _ => by simp [encodePair]
    simp only [encode, Json.tagged, Json.hasWords_object, List.mem_singleton, forall_eq,
      Json.hasWords_array, List.forall_mem_map]
    exact h
  | mutate assignments | summarise assignments =>
    have h : ∀ a ∈ assignments, (encodeAssignment a).HasWords := fun a _ => by
      simp [encodeAssignment, Expr.hasWords_encode]
    simp only [encode, Json.tagged, Json.hasWords_object, List.mem_singleton, forall_eq,
      Json.hasWords_array, List.forall_mem_map]
    exact h
  | _ =>
    simp [encode, Json.tagged, Ident.encode, Json.ofFields, Expr.hasWords_encode]

theorem Query.hasWords_encode (q : Query) : q.encode.HasWords := by
  obtain ⟨⟨schema, name, columns⟩, ops⟩ := q
  cases schema <;> simp [encode, Source.encode, Json.ofFields, Op.hasWords_encode]

/-! ## Plans -/

namespace Plan

theorem ofText?_encode {q : Query} (hq : q.IsWritable)
    (hfloats : ∀ x, .float x ∈ q.encode.numbers → (JsonNumber.float x).Survives) :
    ofText? q.encode.text =
      if q.encode.depth ≤ depthLimit then
        some { dialect := none, config := .default, query := q }
      else none := by
  have hread := JsonTree.read?_text (q.hasWords_encode.survive hfloats)
  have hconfig (f : JsonTree → JsonTree) :
      (JsonTree.ofJson q.encode).mapField "config" f = JsonTree.ofJson q.encode := by
    simp [Query.encode, JsonTree.ofJson, JsonTree.ofFields, JsonTree.mapField]
  have hdecode : decode? q.encode = some { dialect := none, config := .default, query := q } := by
    have hquery := fileSpelling.query?_encode hq
    simp only [decode?, hquery]
    simp [Query.encode, Json.fields?, Fields.optional, Fields.defaulted, Fields.find?]
  rw [ofText?, hread, Option.bind_eq_bind, Option.bind_some, hconfig, JsonTree.value?_ofJson]
  split
  · exact hdecode
  · rfl

end Plan

/-! ## Differences -/

theorem Scalar.ctorIdx_eq_of_encode_eq {a b : Scalar} (h : a.encode = b.encode) :
    a.ctorIdx = b.ctorIdx := by
  cases a <;> cases b <;> first | rfl | simp [encode, Json.tagged] at h

theorem Expr.ctorIdx_eq_of_encode_eq {a b : Expr} (h : a.encode = b.encode) :
    a.ctorIdx = b.ctorIdx := by
  rcases a with _ | _ | _ | ⟨_, _, _ | _⟩ | _ | _ | _ | _ <;>
    rcases b with _ | _ | _ | ⟨_, _, _ | _⟩ | _ | _ | _ | _ <;>
      first | rfl | simp [encode, Json.tagged] at h

theorem Op.ctorIdx_eq_of_encode_eq {a b : Op} (h : a.encode = b.encode) :
    a.ctorIdx = b.ctorIdx := by
  cases a <;> cases b <;> first | rfl | simp [encode, Json.tagged] at h

theorem Scalar.eq_of_encode_eq {a b : Scalar} (ha : a.isWritable = true)
    (hb : b.isWritable = true) (h : a.encode = b.encode) : a = b := by
  have hread := Plan.fileSpelling.scalar?_encode ha
  rw [h, Plan.fileSpelling.scalar?_encode hb] at hread
  exact (Option.some.inj hread).symm

theorem Expr.eq_of_encode_eq {a b : Expr} (ha : a.IsWritable) (hb : b.IsWritable)
    (h : a.encode = b.encode) : a = b := by
  have hread := Plan.fileSpelling.expr?_encode ha
  rw [h, Plan.fileSpelling.expr?_encode hb] at hread
  exact (Option.some.inj hread).symm

theorem Op.eq_of_encode_eq {a b : Op} (ha : a.IsWritable) (hb : b.IsWritable)
    (h : a.encode = b.encode) : a = b := by
  have hread := Plan.fileSpelling.op?_encode ha
  rw [h, Plan.fileSpelling.op?_encode hb] at hread
  exact (Option.some.inj hread).symm

/-! ## Omitted fields -/

namespace Json

/-- The names of the fields of an object. -/
def keys : Json → List String
  | .object fields => fields.map Prod.fst
  | _ => []

theorem mem_keys_ofFields {fields : List (String × Option Json)} {key : String} :
    key ∈ (ofFields fields).keys ↔ ∃ value, (key, some value) ∈ fields := by
  simp only [ofFields, keys, List.map_filterMap, List.mem_filterMap, Prod.exists]
  constructor
  · rintro ⟨name, value, hmem, h⟩
    cases value with
    | none => cases h
    | some value =>
      cases h
      exact ⟨value, hmem⟩
  · rintro ⟨value, hmem⟩
    exact ⟨key, some value, hmem, rfl⟩

theorem eq_object_of_fields? {j : Json} {fields : Fields} (h : j.fields? = some fields) :
    j = .object fields := by
  cases j with
  | object _ =>
    cases h
    rfl
  | _ => cases h

end Json

theorem Source.mem_keys_encode (s : Source) :
    "schema" ∈ s.encode.keys ↔ s.schema.isSome = true := by
  cases h : s.schema <;> simp [encode, Json.mem_keys_ofFields, h]

theorem Ident.mem_keys_encode (i : Ident) :
    "alias" ∈ i.encode.keys ↔ i.newName.isSome = true := by
  cases h : i.newName <;> simp [encode, Json.mem_keys_ofFields, h]

theorem Expr.mem_keys_encodeArg (name : Option String) (value : Json) :
    "name" ∈ (encodeArg name value).keys ↔ name.isSome = true := by
  cases name <;> simp [encodeArg, Json.mem_keys_ofFields]

theorem Expr.mem_keys_conditional (condition value : Expr) (otherwise : Option Expr) :
    ∃ body, (conditional condition value otherwise).encode = .tagged "conditional" body ∧
      ("otherwise" ∈ body.keys ↔ otherwise.isSome = true) := by
  cases otherwise <;> exact ⟨_, rfl, by simp [Json.keys]⟩

theorem Fields.optional_of_notMem {α : Type} {fields : Fields} {key : String}
    (decode : Json → Option α) (h : key ∉ (Json.object fields).keys) :
    fields.optional key decode = some none := by
  have hfilter : fields.filter (·.1 == key) = [] := by
    refine List.filter_eq_nil_iff.2 fun field hfield => ?_
    have hne : field.1 ≠ key := fun heq => h (heq ▸ List.mem_map_of_mem hfield)
    simpa using hne
  simp [optional, find?, hfilter]

namespace Spelling

theorem schema_of_source? {j : Json} {s : Source} (h : source? j = some s)
    (hkey : "schema" ∉ j.keys) : s.schema = none := by
  simp only [source?, Option.bind_eq_bind, Option.bind_eq_some_iff] at h
  obtain ⟨fields, hfields, schema, hschema, name, -, columns, -, h⟩ := h
  cases h
  rw [Json.eq_object_of_fields? hfields] at hkey
  rw [Fields.optional_of_notMem _ hkey] at hschema
  cases hschema
  rfl

theorem newName_of_ident? {j : Json} {i : Ident} (h : ident? j = some i)
    (hkey : "alias" ∉ j.keys) : i.newName = none := by
  simp only [ident?, Option.bind_eq_bind, Option.bind_eq_some_iff] at h
  obtain ⟨fields, hfields, name, -, newName, hnewName, h⟩ := h
  cases h
  rw [Json.eq_object_of_fields? hfields] at hkey
  rw [Fields.optional_of_notMem _ hkey] at hnewName
  cases hnewName
  rfl

theorem name_of_argWithin? {sp : Spelling} {fuel : Nat} {j : Json} {arg : Arg Expr}
    (h : sp.argWithin? fuel j = some arg) (hkey : "name" ∉ j.keys) : arg.name = none := by
  cases fuel with
  | zero => simp [argWithin?] at h
  | succ fuel =>
    simp only [argWithin?, Option.bind_eq_bind, Option.bind_eq_some_iff] at h
    obtain ⟨fields, hfields, name, hname, value, -, h⟩ := h
    cases h
    rw [Json.eq_object_of_fields? hfields] at hkey
    rw [Fields.optional_of_notMem _ hkey] at hname
    cases hname
    rfl

theorem otherwise_of_exprWithin? {sp : Spelling} {fuel : Nat} {j : Json} {e : Expr}
    (h : sp.exprWithin? fuel (.tagged "conditional" j) = some e)
    (hkey : "otherwise" ∉ j.keys) : ∃ condition value, e = .conditional condition value none := by
  cases fuel with
  | zero => simp [exprWithin?] at h
  | succ fuel =>
    simp only [Json.tagged, exprWithin?, Option.bind_eq_bind, Option.bind_eq_some_iff] at h
    obtain ⟨fields, hfields, condition, -, value, -, otherwise, hotherwise, h⟩ := h
    cases h
    rw [Json.eq_object_of_fields? hfields] at hkey
    rw [Fields.optional_of_notMem _ hkey] at hotherwise
    cases hotherwise
    exact ⟨condition, value, rfl⟩

end Spelling

/-! ## Writing and reading back -/

/-- A query whose literals can be written is what its JSON is decoded to, to any depth. Its text is
a plan that gives it back exactly when no part of it stands in more arrays and objects than the
reader of plans allows. -/
theorem decode_encode (q : Query) (hq : q.IsWritable)
    (hfloats : ∀ x, .float x ∈ q.encode.numbers → (JsonNumber.float x).Survives) :
    (∀ sp : Spelling, sp.query? q.encode = some q) ∧
    (∀ limit, Json.read? limit q.encode.text =
      if q.encode.depth ≤ limit then some q.encode else none) ∧
    Plan.ofText? q.encode.text =
      (if q.encode.depth ≤ Plan.depthLimit then
        some { dialect := none, config := .default, query := q }
      else none) ∧
    ((∀ a b : Op, a.encode = b.encode → a.ctorIdx = b.ctorIdx) ∧
      (∀ a b : Expr, a.encode = b.encode → a.ctorIdx = b.ctorIdx) ∧
      (∀ a b : Scalar, a.encode = b.encode → a.ctorIdx = b.ctorIdx)) ∧
    ((∀ a b : Op, a.IsWritable → b.IsWritable → a.encode = b.encode → a = b) ∧
      (∀ a b : Expr, a.IsWritable → b.IsWritable → a.encode = b.encode → a = b) ∧
      (∀ a b : Scalar, a.isWritable = true → b.isWritable = true → a.encode = b.encode → a = b)) ∧
    ((∀ s : Source, "schema" ∈ s.encode.keys ↔ s.schema.isSome = true) ∧
      (∀ i : Ident, "alias" ∈ i.encode.keys ↔ i.newName.isSome = true) ∧
      (∀ name value, "name" ∈ (Expr.encodeArg name value).keys ↔ name.isSome = true) ∧
      (∀ condition value otherwise, ∃ body,
        (Expr.conditional condition value otherwise).encode = .tagged "conditional" body ∧
        ("otherwise" ∈ body.keys ↔ otherwise.isSome = true))) ∧
    (∀ j s, Spelling.source? j = some s → "schema" ∉ j.keys → s.schema = none) ∧
    (∀ j i, Spelling.ident? j = some i → "alias" ∉ j.keys → i.newName = none) ∧
    (∀ (sp : Spelling) fuel j arg, sp.argWithin? fuel j = some arg → "name" ∉ j.keys →
      arg.name = none) ∧
    (∀ (sp : Spelling) fuel j e, sp.exprWithin? fuel (.tagged "conditional" j) = some e →
      "otherwise" ∉ j.keys → ∃ condition value, e = .conditional condition value none) := by
  exact ⟨fun sp => sp.query?_encode hq,
    Json.read?_text (q.hasWords_encode.survive hfloats),
    Plan.ofText?_encode hq hfloats,
    ⟨fun _ _ => Op.ctorIdx_eq_of_encode_eq, fun _ _ => Expr.ctorIdx_eq_of_encode_eq,
      fun _ _ => Scalar.ctorIdx_eq_of_encode_eq⟩,
    ⟨fun _ _ => Op.eq_of_encode_eq, fun _ _ => Expr.eq_of_encode_eq,
      fun _ _ => Scalar.eq_of_encode_eq⟩,
    ⟨Source.mem_keys_encode, Ident.mem_keys_encode, Expr.mem_keys_encodeArg,
      Expr.mem_keys_conditional⟩,
    fun _ _ => Spelling.schema_of_source?, fun _ _ => Spelling.newName_of_ident?,
    fun _ _ _ _ => Spelling.name_of_argWithin?, fun _ _ _ _ => Spelling.otherwise_of_exprWithin?⟩

/-- A column, an alias, options that are given and left out, and a literal of every kind. -/
def samplePlan : Query where
  source := { schema := some "s", name := "t", columns := ["x", "ü\n"] }
  ops := [
    .select [{ name := "x", newName := none }, { name := "ü\n", newName := some "y" }],
    .mutate [
      ("z", .conditional (.unary .not (.column "x")) (.literal (.int64 (-5)))
        (some (.call "round" [⟨none, .literal (.float64 ⟨0x3FF8000000000000⟩)⟩,
          ⟨some "digits", .literal .null⟩] true))),
      ("w", .conditional (.literal (.boolean true)) (.literal (.utf8 "\\")) none)],
    .filter [
      .inList (.column "x") [.literal (.timestamp (⟨⟨719528, 86399, 1500000000, by decide,
        by decide⟩, -5400, by decide⟩))],
      .inExpr (.column "x") (.binary .add (.column "y") (.literal (.int64 7)))],
    .groupBy ["y"] true,
    .ungroup]

theorem decode_encode_samplePlan :
    samplePlan.IsWritable ∧
      (∀ x, .float x ∈ samplePlan.encode.numbers → (JsonNumber.float x).Survives) ∧
      samplePlan.encode.depth ≤ Plan.depthLimit ∧
      Plan.ofText? samplePlan.encode.text =
        some { dialect := none, config := .default, query := samplePlan } := by
  have hwritable : samplePlan.IsWritable := by decide
  have hdepth : samplePlan.encode.depth ≤ Plan.depthLimit := by decide
  have hsurvives : (JsonNumber.float ⟨0x3FF8000000000000⟩).Survives := by decide +kernel
  have hnumbers : samplePlan.encode.numbers =
      [.integer (-5), .float ⟨0x3FF8000000000000⟩, .integer 7] := by decide
  have hfloats : ∀ x, .float x ∈ samplePlan.encode.numbers → (JsonNumber.float x).Survives := by
    intro x hx
    rw [hnumbers] at hx
    obtain rfl : x = ⟨0x3FF8000000000000⟩ := by simpa using hx
    exact hsurvives
  have h := (decode_encode samplePlan hwritable hfloats).2.2.1
  rw [if_pos hdepth] at h
  exact ⟨hwritable, hfloats, hdepth, h⟩

/-- A column within this many calls. -/
def deepCall : Nat → Expr
  | 0 => .column "x"
  | n + 1 => .plainCall "abs" [deepCall n]

def deepPlan : Query where
  source := { schema := none, name := "t", columns := ["x"] }
  ops := [.mutate [("y", deepCall 31)]]

/-- A call stands in four arrays and objects more than its argument, so that thirty-one calls are
too many for a plan. -/
theorem ofText?_deepPlan :
    deepPlan.IsWritable ∧ deepPlan.encode.numbers = [] ∧
      Plan.ofText? deepPlan.encode.text = none := by
  have hwritable : deepPlan.IsWritable := by decide
  have hnumbers : deepPlan.encode.numbers = [] := by decide +kernel
  have hdepth : ¬ deepPlan.encode.depth ≤ Plan.depthLimit := by decide +kernel
  have h := Plan.ofText?_encode hwritable fun x hx => by simp [hnumbers] at hx
  rw [if_neg hdepth] at h
  exact ⟨hwritable, hnumbers, h⟩

end SqlChain
