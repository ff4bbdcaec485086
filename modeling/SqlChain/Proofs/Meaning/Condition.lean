import SqlChain.Proofs.Chain.Spelling
import SqlChain.Proofs.Meaning.Rank

/-!
# Conditions

The conditions of joins and of counted rows compare columns of two rows. A comparison with a null is
neither true nor false, and only a condition that is true lets a row through. The texts of a level
are those of the conditions that it is read with.
-/

namespace SqlChain

/-- True, false, or none of both. -/
abbrev Truth := Option Bool

namespace Truth

def and : Truth → Truth → Truth
  | some false, _ | _, some false => some false
  | some true, some true => some true
  | _, _ => none

def or : Truth → Truth → Truth
  | some true, _ | _, some true => some true
  | some false, some false => some false
  | _, _ => none

theorem and_eq_true_iff (p q : Truth) : p.and q = some true ↔ p = some true ∧ q = some true := by
  rcases p with _ | _ | _ <;> rcases q with _ | _ | _ <;> simp [and]

theorem or_eq_true_iff (p q : Truth) : p.or q = some true ↔ p = some true ∨ q = some true := by
  rcases p with _ | _ | _ <;> rcases q with _ | _ | _ <;> simp [or]

end Truth

/-- A column of the row that a table name stands for, or an expression over that row. -/
inductive TableTerm where
  | column (table name : String)
  | computed (table : String) (expr : Expr)

inductive Condition where
  | equal (left right : TableTerm)
  /-- Whether one value comes before the other, in the opposite order if `descending`. -/
  | before (descending : Bool) (left right : TableTerm)
  | isNull (operand : TableTerm)
  | both (left right : Condition)
  | either (left right : Condition)

namespace Condition

/-- Equality of a column of two tables, nulls being equal to each other. -/
def sameGroup (left right group : String) : Condition :=
  .either (.equal (.column left group) (.column right group))
    (.both (.isNull (.column left group)) (.isNull (.column right group)))

end Condition

def Matching.conditions (on : Matching) : List Condition :=
  on.groups.map (.sameGroup Side.left.tableName Side.right.tableName)

/-- The rows that a rank counts are of the same group and come before. -/
def CorrelatedRank.conditions (r : CorrelatedRank) : List Condition :=
  r.groups.map (.sameGroup Compiler.rankTable Side.left.tableName) ++
    [.before r.descending (.computed Compiler.rankTable r.key)
      (.computed Side.left.tableName r.key)]

/-! ## Truth -/

namespace Semantics

variable {ω : Type} (M : Semantics ω) (O : ValueOrder)

/-- A comparison with a null is neither true nor false. -/
def compared (p : Scalar → Scalar → Bool) (x y : Scalar) : Truth :=
  if x.isNull || y.isNull then none else some (p x y)

def termValue (tables : String → Env) : TableTerm → Scalar
  | .column table name => tables table name
  | .computed table e => M.value e [tables table]

def truth (tables : String → Env) : Condition → Truth
  | .equal x y => compared Scalar.keyEqual (M.termValue tables x) (M.termValue tables y)
  | .before descending x y =>
    compared (O.directed descending).before (M.termValue tables x) (M.termValue tables y)
  | .isNull x => some (M.termValue tables x).isNull
  | .both p q => (truth tables p).and (truth tables q)
  | .either p q => (truth tables p).or (truth tables q)

/-- Whether the conditions are true together. -/
def passes (tables : String → Env) (conditions : List Condition) : Bool :=
  (conditions.map (M.truth O tables)).foldr Truth.and (some true) == some true

theorem passes_iff (tables : String → Env) (conditions : List Condition) :
    M.passes O tables conditions = true ↔ ∀ p ∈ conditions, M.truth O tables p = some true := by
  rw [passes, beq_iff_eq]
  induction conditions with
  | nil => simp
  | cons p rest ih => rw [List.map_cons, List.foldr_cons, Truth.and_eq_true_iff, ih,
      List.forall_mem_cons]

theorem compared_or_isNull (x y : Scalar) :
    (compared Scalar.keyEqual x y).or (Truth.and (some x.isNull) (some y.isNull)) = some true ↔
      x.keyEqual y = true := by
  rw [Truth.or_eq_true_iff, Truth.and_eq_true_iff, compared]
  cases x <;> cases y <;> simp [Scalar.isNull, Scalar.keyEqual, Scalar.equal]

theorem truth_sameGroup (tables : String → Env) (left right group : String) :
    M.truth O tables (.sameGroup left right group) = some true ↔
      (tables left group).keyEqual (tables right group) = true :=
  compared_or_isNull (tables left group) (tables right group)

end Semantics

/-! ## Texts -/

variable {c : Compiler}

def TableTerm.IsSpelled (c : Compiler) (text : String) : TableTerm → Prop
  | .column table name => c.dialect.quoteQualified (some table) name = .ok text
  | .computed table e => ∃ warnings later,
    (c.compileOperand (.qualified table) e).run.run warnings = (.ok text, later)

namespace Condition

inductive IsSpelled (c : Compiler) : Condition → String → Prop
  | equal {x y : TableTerm} {s t : String} (hx : x.IsSpelled c s) (hy : y.IsSpelled c t) :
      IsSpelled c (.equal x y) (s ++ " = " ++ t)
  | before {x y : TableTerm} {s t : String} (descending : Bool) (hx : x.IsSpelled c s)
      (hy : y.IsSpelled c t) :
      IsSpelled c (.before descending x y) (s ++ (if descending then " > " else " < ") ++ t)
  | isNull {x : TableTerm} {s : String} (hx : x.IsSpelled c s) :
      IsSpelled c (.isNull x) (s ++ " IS NULL")
  | both {p q : Condition} {s t : String} (hp : IsSpelled c p s) (hq : IsSpelled c q t) :
      IsSpelled c (.both p q) ("(" ++ s ++ " AND " ++ t ++ ")")
  | either {p q : Condition} {s t : String} (hp : IsSpelled c p s) (hq : IsSpelled c q t) :
      IsSpelled c (.either p q) ("(" ++ s ++ " OR " ++ t ++ ")")

/-- Conditions that have to hold together. Where there are none, one is written that holds always. -/
def AreSpelled (c : Compiler) (conditions : List Condition) (text : String) : Prop :=
  ∃ texts, List.Forall₂ (IsSpelled c) conditions texts ∧
    text = if texts.isEmpty then "1 = 1" else String.intercalate " AND " texts

end Condition

theorem isSpelled_matchGroup {left right group text : String}
    (h : c.matchGroup left right group = .ok text) :
    (Condition.sameGroup left right group).IsSpelled c text := by
  obtain ⟨l, hl, h⟩ := exists_of_bind_eq_ok h
  obtain ⟨r, hr, h⟩ := exists_of_bind_eq_ok h
  have htext : text = "(" ++ (l ++ " = " ++ r) ++ " OR " ++
      ("(" ++ (l ++ " IS NULL") ++ " AND " ++ (r ++ " IS NULL") ++ ")") ++ ")" := by
    have hword : " OR (" = " OR " ++ "(" := by decide
    have hnulls : " IS NULL AND " = " IS NULL" ++ " AND " := by decide
    have hclose : " IS NULL))" = " IS NULL" ++ ")" ++ ")" := by decide
    cases h
    rw [hword, hnulls, hclose]
    simp only [String.append_assoc]
  rw [htext]
  exact .either (.equal hl hr) (.both (.isNull hl) (.isNull hr))

theorem isSpelled_matchGroups {left right : String} {groups texts : List String}
    (h : c.matchGroups left right groups = .ok texts) :
    List.Forall₂ (Condition.IsSpelled c) (groups.map (.sameGroup left right)) texts := by
  rw [List.forall₂_map_left_iff]
  exact (forall₂_of_mapM_eq_ok h).imp fun _ _ hgroup => isSpelled_matchGroup hgroup

theorem Matching.IsSpelled.conditions {on : Matching} (h : on.IsSpelled c) :
    Condition.AreSpelled c on.conditions on.sql := by
  obtain ⟨texts, htexts, h⟩ := exists_of_bind_eq_ok h
  refine ⟨texts, isSpelled_matchGroups htexts, ?_⟩
  exact congrArg Matching.sql (Except.ok.inj h).symm

/-- The text is one more than a count of the rows of `source` for which the conditions hold. -/
def CorrelatedRank.Counts (c : Compiler) (source : String) (r : CorrelatedRank) : Prop :=
  ∃ key table condition, TableTerm.IsSpelled c key (.computed Compiler.rankTable r.key) ∧
    c.dialect.quoteIdentifier Compiler.rankTable = .ok table ∧
    Condition.AreSpelled c r.conditions condition ∧
    r.sql = "(SELECT " ++ (if r.dense then "COUNT(DISTINCT " ++ key ++ ")" else "COUNT(*)") ++
      " FROM " ++ Level.named source table ++ " WHERE " ++ condition ++ ") + 1"

theorem CorrelatedRank.IsSpelled.counts {source : String} {r : CorrelatedRank}
    (h : r.IsSpelled c source) : r.Counts c source := by
  obtain ⟨inner, outer, same, table, hinner, houter, hsame, htable, hsql⟩ := h
  have hkey : (TableTerm.computed Compiler.rankTable r.key).IsSpelled c inner := hinner
  have hown : (TableTerm.computed Side.left.tableName r.key).IsSpelled c outer := houter
  have htexts : List.Forall₂ (Condition.IsSpelled c) r.conditions (same ++ _) :=
    List.rel_append (isSpelled_matchGroups hsame) (.cons (.before r.descending hkey hown) .nil)
  refine ⟨inner, table, _, hkey, htable, ⟨_, htexts, rfl⟩, ?_⟩
  have hsome : ∀ last : String, (same ++ [last]).isEmpty = false := by simp
  rw [hsql, hsome]
  rfl

/-- Every text of a level is written for what the level is read with in its place. -/
structure Level.IsWritten (c : Compiler) (level : Level) : Prop where
  computed : ∀ item ∈ level.body.items, ∀ f, item.value = .computed f → f.IsSpelled c
  ranks : ∀ item ∈ level.body.items, ∀ r, item.value = .rank r → ∃ left source,
    level.side? .left = some left ∧ left.render c.dialect = .ok source ∧ r.Counts c source
  filters : ∀ f ∈ level.body.filters, f.IsSpelled c
  matching : ∀ on ∈ level.matching?, Condition.AreSpelled c on.conditions on.sql

theorem Level.IsSpelled.isWritten {level : Level} (h : level.IsSpelled c) : level.IsWritten c where
  computed := by
    intro item hitem f hvalue
    have hspelled := h.items item hitem
    rwa [Level.IsSpelledItem, hvalue] at hspelled
  ranks := by
    intro item hitem r hvalue
    have hspelled := h.items item hitem
    rw [Level.IsSpelledItem, hvalue] at hspelled
    obtain ⟨left, source, hleft, hsource, hrank⟩ := hspelled
    exact ⟨left, source, hleft, hsource, hrank.counts⟩
  filters := h.filters
  matching := fun on hon => (h.matching on hon).conditions

end SqlChain
