import SqlChain.Proofs.Building
import SqlChain.Query.Window

/-!
# Texts of a level

A level keeps what it means beside every text. A level is spelled if each of its texts was written
for the expression, the rank or the join condition that stands beside it.
-/

namespace SqlChain

variable {c : Compiler}

/-- Every column that the fragment refers to, in its window too. -/
def Fragment.columns (f : Fragment) : List String :=
  f.expr.columns ++ f.window.toList.flatMap fun w => w.partition ++ w.order.flatMap Expr.columns

def Fragment.IsSpelled (c : Compiler) (f : Fragment) : Prop :=
  ∃ warnings later,
    (c.compile { window := f.window, qualifier := none } f.expr).run.run warnings =
      (.ok f.sql, later)

/-- The text counts rows of `source`, in a table of its own, that come before the row of the left
side. -/
def CorrelatedRank.IsSpelled (c : Compiler) (source : String) (r : CorrelatedRank) : Prop :=
  ∃ inner outer same table,
    (∃ warnings later, (c.compileOperand (.qualified Compiler.rankTable) r.key).run.run warnings =
      (.ok inner, later)) ∧
    (∃ warnings later, (c.compileOperand (.qualified Side.left.tableName) r.key).run.run warnings =
      (.ok outer, later)) ∧
    c.matchGroups Compiler.rankTable Side.left.tableName r.groups = .ok same ∧
    c.dialect.quoteIdentifier Compiler.rankTable = .ok table ∧
    r.sql = "(SELECT " ++ (if r.dense then "COUNT(DISTINCT " ++ inner ++ ")" else "COUNT(*)") ++
      " FROM " ++ Level.named source table ++ " WHERE " ++
      String.intercalate " AND "
        (same ++ [inner ++ (if r.descending then " > " else " < ") ++ outer]) ++ ") + 1"

theorem Compiler.groups_of_matching {groups : List String} {on : Matching}
    (h : c.matching groups = .ok on) : on.groups = groups := by
  obtain ⟨conditions, _, hon⟩ := exists_of_bind_eq_ok h
  cases hon
  rfl

def Matching.IsSpelled (c : Compiler) (on : Matching) : Prop := c.matching on.groups = .ok on

namespace Level

/-- The level that stands for a side. A subquery has a left side if it is named like one. -/
def side? : Level → Side → Option Level
  | .join left _ _ _, .left => some left
  | .join _ right _ _, .right => some right
  | .subquery inner tableName _, .left =>
    if tableName = Side.left.tableName then some inner else none
  | _, _ => none

def matching? : Level → Option Matching
  | .join _ _ on _ => some on
  | _ => none

/-- The level and every level within it. -/
def nest : Level → List Level
  | .table schema name body => [.table schema name body]
  | .subquery inner tableName body => .subquery inner tableName body :: inner.nest
  | .join left right on body => .join left right on body :: (left.nest ++ right.nest)

theorem mem_nest (level : Level) : level ∈ level.nest := by
  cases level <;> exact List.mem_cons_self

/-- What is within a level does not depend on its clauses. -/
theorem mem_nest_withBody {level inner : Level} {b : Body} (h : inner ∈ (level.withBody b).nest) :
    inner = level.withBody b ∨ inner ∈ level.nest := by
  cases level with
  | table schema name body => exact .inl (List.mem_singleton.1 h)
  | subquery source tableName body => exact (List.mem_cons.1 h).imp_right (List.mem_cons_of_mem _)
  | join left right on body => exact (List.mem_cons.1 h).imp_right (List.mem_cons_of_mem _)

@[simp] theorem side?_withBody (level : Level) (b : Body) :
    (level.withBody b).side? = level.side? := by
  funext side
  cases level <;> cases side <;> rfl

@[simp] theorem matching?_withBody (level : Level) (b : Body) :
    (level.withBody b).matching? = level.matching? := by
  cases level <;> rfl

@[simp] theorem isJoin_withBody (level : Level) (b : Body) :
    (level.withBody b).isJoin = level.isJoin := by
  cases level <;> rfl

/-- What is read off the text of an item, which is a rank of rows of the left side if it is one. -/
def IsSpelledItem (c : Compiler) (level : Level) (item : Item) : Prop :=
  match item.value with
  | .column _ _ => True
  | .computed f => f.IsSpelled c
  | .rank r => ∃ left source, level.side? .left = some left ∧
    left.render c.dialect = .ok source ∧ r.IsSpelled c source

structure IsSpelled (c : Compiler) (level : Level) : Prop where
  items : ∀ item ∈ level.body.items, level.IsSpelledItem c item
  filters : ∀ f ∈ level.body.filters, f.IsSpelled c
  matching : ∀ on ∈ level.matching?, on.IsSpelled c

theorem IsSpelled.withBody {level : Level} (h : level.IsSpelled c) {b : Body}
    (hitems : ∀ item ∈ b.items, level.IsSpelledItem c item)
    (hfilters : ∀ f ∈ b.filters, f.IsSpelled c) : (level.withBody b).IsSpelled c where
  items := by
    rw [body_withBody]
    intro item hitem
    have hspelled := hitems item hitem
    rw [IsSpelledItem] at hspelled ⊢
    rwa [side?_withBody]
  filters := by rwa [body_withBody]
  matching := by simpa using h.matching

/-- A level that passes on columns under their names has no texts but those of its `FROM`. -/
theorem isSpelled_of_columns {level : Level}
    (hitems : ∀ item ∈ level.body.items, ∃ side name, item.value = .column side name)
    (hfilters : level.body.filters = []) (hmatching : ∀ on ∈ level.matching?, on.IsSpelled c) :
    level.IsSpelled c where
  items := by
    intro item hitem
    obtain ⟨side, name, hvalue⟩ := hitems item hitem
    rw [IsSpelledItem, hvalue]
    exact True.intro
  filters := by simp [hfilters]
  matching := hmatching

end Level

/-! ## Texts that are compiled -/

namespace BuildM

variable {before : List Warning}

theorem ensuresAfter_compile (c : Compiler) (context : Context) (hqualifier : context.qualifier = none)
    (e : Expr) :
    (BuildM.compiling (c.compile context e)).EnsuresAfter before fun sql w =>
      Fragment.IsSpelled c { expr := e, window := context.window, sql } ∧ w = before := by
  refine (EnsuresAfter.compiling _).imp ?_
  rintro sql w ⟨⟨warnings, later, hrun⟩, hw⟩
  refine ⟨⟨warnings, later, ?_⟩, hw⟩
  rw [← hqualifier]
  exact hrun

theorem ensuresAfter_correlatedRank (source : String) (dense : Bool) (key : Expr)
    (groups : List String) :
    (c.correlatedRank source dense key groups).EnsuresAfter before fun r w =>
      (r.IsSpelled c source ∧ r.dense = dense ∧ r.key = key.descending?.getD key ∧
        r.descending = key.descending?.isSome ∧ r.groups = groups) ∧ w = before := by
  refine (EnsuresAfter.compiling _).bind ?_
  rintro inner _ ⟨hinner, rfl⟩
  refine (EnsuresAfter.compiling _).bind ?_
  rintro outer _ ⟨houter, rfl⟩
  refine (EnsuresAfter.lift _).bind ?_
  rintro same _ ⟨hsame, rfl⟩
  refine (EnsuresAfter.lift _).bind ?_
  rintro table _ ⟨htable, rfl⟩
  refine .pure ⟨⟨⟨inner, outer, same, table, hinner, houter, hsame, htable, rfl⟩, ?_⟩, rfl⟩
  exact ⟨rfl, rfl, rfl, rfl⟩

end BuildM

end SqlChain
