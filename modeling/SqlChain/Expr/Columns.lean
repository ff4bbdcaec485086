import SqlChain.Expr.Basic

/-!
# Columns of an expression

The columns that an expression refers to, and the renaming of all of them at once.
`columns_mapColumns` says that renaming changes the columns and nothing about their order.
-/

namespace SqlChain

/-- The first occurrence of every element. -/
def distinct : List String → List String
  | [] => []
  | x :: xs => x :: (distinct xs).filter (· ≠ x)

theorem mem_distinct {x : String} {xs : List String} : x ∈ distinct xs ↔ x ∈ xs := by
  induction xs with
  | nil => rfl
  | cons y ys ih => by_cases h : x = y <;> simp [distinct, h, ih]

theorem nodup_distinct (xs : List String) : (distinct xs).Nodup := by
  induction xs with
  | nil => exact List.nodup_nil
  | cons y ys ih => exact List.nodup_cons.2 ⟨by simp, ih.filter _⟩

namespace Expr

mutual

/-- Every column in the order of its occurrences. -/
def columns : Expr → List String
  | .column name => [name]
  | .literal _ => []
  | .call _ args _ => columnsOfArgs args
  | .conditional condition value none => condition.columns ++ value.columns
  | .conditional condition value (some e) => condition.columns ++ value.columns ++ e.columns
  | .inList expr candidates => expr.columns ++ columnsOfList candidates
  | .inExpr expr candidates => expr.columns ++ candidates.columns
  | .binary _ left right => left.columns ++ right.columns
  | .unary _ operand => operand.columns

def columnsOfArgs : List (Arg Expr) → List String
  | [] => []
  | ⟨_, e⟩ :: rest => e.columns ++ columnsOfArgs rest

def columnsOfList : List Expr → List String
  | [] => []
  | e :: rest => e.columns ++ columnsOfList rest

end

/-- Every column once, at its first occurrence. -/
def references (e : Expr) : List String := distinct e.columns

mutual

/-- The expression with every column replaced, all at the same time. -/
def mapColumns (f : String → String) : Expr → Expr
  | .column name => .column (f name)
  | .literal value => .literal value
  | .call function args window => .call function (mapColumnsOfArgs f args) window
  | .conditional condition value none =>
    .conditional (condition.mapColumns f) (value.mapColumns f) none
  | .conditional condition value (some e) =>
    .conditional (condition.mapColumns f) (value.mapColumns f) (some (e.mapColumns f))
  | .inList expr candidates => .inList (expr.mapColumns f) (mapColumnsOfList f candidates)
  | .inExpr expr candidates => .inExpr (expr.mapColumns f) (candidates.mapColumns f)
  | .binary op left right => .binary op (left.mapColumns f) (right.mapColumns f)
  | .unary op operand => .unary op (operand.mapColumns f)

def mapColumnsOfArgs (f : String → String) : List (Arg Expr) → List (Arg Expr)
  | [] => []
  | ⟨name, e⟩ :: rest => ⟨name, e.mapColumns f⟩ :: mapColumnsOfArgs f rest

def mapColumnsOfList (f : String → String) : List Expr → List Expr
  | [] => []
  | e :: rest => e.mapColumns f :: mapColumnsOfList f rest

end

mutual

theorem columns_mapColumns (f : String → String) :
    ∀ e : Expr, (e.mapColumns f).columns = e.columns.map f
  | .column _ | .literal _ => rfl
  | .call _ args _ => columns_mapColumnsOfArgs f args
  | .conditional condition value none => by
    simp [mapColumns, columns, columns_mapColumns f condition, columns_mapColumns f value]
  | .conditional condition value (some e) => by
    simp [mapColumns, columns, columns_mapColumns f condition, columns_mapColumns f value,
      columns_mapColumns f e]
  | .inList expr candidates => by
    simp [mapColumns, columns, columns_mapColumns f expr, columns_mapColumnsOfList f candidates]
  | .inExpr expr candidates => by
    simp [mapColumns, columns, columns_mapColumns f expr, columns_mapColumns f candidates]
  | .binary _ left right => by
    simp [mapColumns, columns, columns_mapColumns f left, columns_mapColumns f right]
  | .unary _ operand => columns_mapColumns f operand

theorem columns_mapColumnsOfArgs (f : String → String) :
    ∀ args : List (Arg Expr),
      columnsOfArgs (mapColumnsOfArgs f args) = (columnsOfArgs args).map f
  | [] => rfl
  | ⟨_, e⟩ :: rest => by
    simp [mapColumnsOfArgs, columnsOfArgs, columns_mapColumns f e,
      columns_mapColumnsOfArgs f rest]

theorem columns_mapColumnsOfList (f : String → String) :
    ∀ es : List Expr, columnsOfList (mapColumnsOfList f es) = (columnsOfList es).map f
  | [] => rfl
  | e :: rest => by
    simp [mapColumnsOfList, columnsOfList, columns_mapColumns f e,
      columns_mapColumnsOfList f rest]

end

/-- One column given another name. -/
def renameColumn (source target : String) (e : Expr) : Expr :=
  e.mapColumns fun name => if name = source then target else name

/-- The new name of a column, the first pair for it being the one that counts. -/
def renamed (renames : List (String × String)) (name : String) : String :=
  (renames.lookup name).getD name

def rename (renames : List (String × String)) (e : Expr) : Expr :=
  e.mapColumns (renamed renames)

theorem renameColumn_eq_rename (source target : String) (e : Expr) :
    e.renameColumn source target = e.rename [(source, target)] := by
  unfold renameColumn rename
  congr
  funext name
  by_cases h : name = source
  · rw [h, if_pos rfl, renamed, List.lookup_cons_self, Option.getD_some]
  · rw [if_neg h, renamed, List.lookup_cons, beq_false_of_ne h, List.lookup_nil, Option.getD_none]

end Expr

end SqlChain
