import SqlChain.Expr.Columns
import SqlChain.Function.Table
import SqlChain.RowSet

/-!
# The value of an expression

An expression is evaluated over a group of rows, and a row by itself is a group of one. Aggregates
are evaluated over all rows of the group, and what stands outside of them over the first row.
-/

namespace SqlChain

/-- The cells of a row by the names of their columns. -/
abbrev Env := String → Scalar

/-- The cell of a row in the first column of this name, null if there is none. -/
def cell (columns : List String) (row : Row) : Env :=
  fun name => ((columns.zip row).lookup name).getD .null

/-- The cell of a group in a column, taken from its first row. -/
def groupCell (rows : List Env) (name : String) : Scalar :=
  match rows with
  | [] => .null
  | row :: _ => row name

/-- What a statement is evaluated with. The value of an expression need not be a scalar, since the
argument of a call may be a list of candidates. -/
structure Semantics (ω : Type) where
  /-- The rows that are stored under a schema and a name. -/
  tables : Option String → String → List Env
  /-- The functions that are known, aggregates among them. -/
  functions : FunctionTable
  ofScalar : Scalar → ω
  toScalar : ω → Scalar
  isTrue : ω → Bool
  binary : BinaryOp → ω → ω → ω
  unary : UnaryOp → ω → ω
  conditional : ω → ω → Option ω → ω
  inList : ω → List ω → ω
  inValue : ω → ω → ω
  call : String → List (Arg ω) → ω
  /-- The value of an aggregate, given its arguments in every row. -/
  aggregate : String → List (List (Arg ω)) → ω

namespace Semantics

variable {ω : Type} (M : Semantics ω)

/-- The rows of a table, cut down to the columns that are read. -/
def stored (schema : Option String) (name : String) (columns : List String) : RowSet where
  columns := columns
  rows := (M.tables schema name).map fun row => columns.map row

def isAggregate (function : String) (arity : Nat) : Bool :=
  (M.functions.form? function arity).any SqlForm.isAggregate

mutual

/-- The value of an expression over a group of rows. -/
def eval : Expr → List Env → ω
  | .column name, rows => M.ofScalar (groupCell rows name)
  | .literal value, _ => M.ofScalar value
  | .call function args _, rows =>
    if M.isAggregate function args.length then
      M.aggregate function (rows.map fun row => evalArgs args [row])
    else M.call function (evalArgs args rows)
  | .conditional condition value none, rows =>
    M.conditional (eval condition rows) (eval value rows) none
  | .conditional condition value (some otherwise), rows =>
    M.conditional (eval condition rows) (eval value rows) (some (eval otherwise rows))
  | .inList expr candidates, rows => M.inList (eval expr rows) (evalList candidates rows)
  | .inExpr expr candidates, rows => M.inValue (eval expr rows) (eval candidates rows)
  | .binary op left right, rows => M.binary op (eval left rows) (eval right rows)
  | .unary op operand, rows => M.unary op (eval operand rows)

def evalArgs : List (Arg Expr) → List Env → List (Arg ω)
  | [], _ => []
  | ⟨name, e⟩ :: rest, rows => ⟨name, eval e rows⟩ :: evalArgs rest rows

def evalList : List Expr → List Env → List ω
  | [], _ => []
  | e :: rest, rows => eval e rows :: evalList rest rows

end

/-- Whether a predicate holds in a row. -/
def holds (e : Expr) (row : Env) : Bool := M.isTrue (M.eval e [row])

/-- The value of an expression as a cell. -/
def value (e : Expr) (rows : List Env) : Scalar := M.toScalar (M.eval e rows)

/-! ## Dependence on columns -/

section

variable {α : Type} {f g : α → Env}

theorem groupCell_congr {xs : List α} {name : String} (h : ∀ x ∈ xs, f x name = g x name) :
    groupCell (xs.map f) name = groupCell (xs.map g) name := by
  cases xs with
  | nil => rfl
  | cons x xs => exact h x (by simp)

mutual

/-- Only the columns of an expression have an influence on its value. -/
theorem eval_congr : ∀ (e : Expr) (xs : List α), (∀ x ∈ xs, ∀ n ∈ e.columns, f x n = g x n) →
    M.eval e (xs.map f) = M.eval e (xs.map g)
  | .column name, xs, h => by
    have hname : groupCell (xs.map f) name = groupCell (xs.map g) name :=
      groupCell_congr fun x hx => h x hx name (by simp [Expr.columns])
    rw [eval, eval, hname]
  | .literal _, _, _ => rfl
  | .call function args _, xs, h => by
    rw [Expr.columns] at h
    -- an aggregate evaluates its arguments row by row, any other call over the group as a whole
    have hrow : ∀ x ∈ xs, M.evalArgs args [f x] = M.evalArgs args [g x] := by
      intro x hx
      exact evalArgs_congr args [x] (by simpa using h x hx)
    have hrows : (xs.map f).map (fun row => M.evalArgs args [row]) =
        (xs.map g).map fun row => M.evalArgs args [row] := by
      rw [List.map_map, List.map_map]
      exact List.map_congr_left hrow
    rw [eval, eval, hrows, evalArgs_congr args xs h]
  | .conditional condition value none, xs, h => by
    have hc := eval_congr condition xs fun x hx n hn => h x hx n (by simp [Expr.columns, hn])
    have hv := eval_congr value xs fun x hx n hn => h x hx n (by simp [Expr.columns, hn])
    rw [eval, eval, hc, hv]
  | .conditional condition value (some otherwise), xs, h => by
    have hc := eval_congr condition xs fun x hx n hn => h x hx n (by simp [Expr.columns, hn])
    have hv := eval_congr value xs fun x hx n hn => h x hx n (by simp [Expr.columns, hn])
    have ho := eval_congr otherwise xs fun x hx n hn => h x hx n (by simp [Expr.columns, hn])
    rw [eval, eval, hc, hv, ho]
  | .inList expr candidates, xs, h => by
    have he := eval_congr expr xs fun x hx n hn => h x hx n (by simp [Expr.columns, hn])
    have hc := evalList_congr candidates xs
      fun x hx n hn => h x hx n (by simp [Expr.columns, hn])
    rw [eval, eval, he, hc]
  | .inExpr left right, xs, h | .binary _ left right, xs, h => by
    have hl := eval_congr left xs fun x hx n hn => h x hx n (by simp [Expr.columns, hn])
    have hr := eval_congr right xs fun x hx n hn => h x hx n (by simp [Expr.columns, hn])
    rw [eval, eval, hl, hr]
  | .unary _ operand, xs, h => by
    rw [eval, eval, eval_congr operand xs h]

theorem evalArgs_congr : ∀ (args : List (Arg Expr)) (xs : List α),
    (∀ x ∈ xs, ∀ n ∈ Expr.columnsOfArgs args, f x n = g x n) →
      M.evalArgs args (xs.map f) = M.evalArgs args (xs.map g)
  | [], _, _ => rfl
  | ⟨_, e⟩ :: rest, xs, h => by
    have he := eval_congr e xs fun x hx n hn => h x hx n (by simp [Expr.columnsOfArgs, hn])
    have hrest := evalArgs_congr rest xs
      fun x hx n hn => h x hx n (by simp [Expr.columnsOfArgs, hn])
    rw [evalArgs, evalArgs, he, hrest]

theorem evalList_congr : ∀ (es : List Expr) (xs : List α),
    (∀ x ∈ xs, ∀ n ∈ Expr.columnsOfList es, f x n = g x n) →
      M.evalList es (xs.map f) = M.evalList es (xs.map g)
  | [], _, _ => rfl
  | e :: rest, xs, h => by
    have he := eval_congr e xs fun x hx n hn => h x hx n (by simp [Expr.columnsOfList, hn])
    have hrest := evalList_congr rest xs
      fun x hx n hn => h x hx n (by simp [Expr.columnsOfList, hn])
    rw [evalList, evalList, he, hrest]

end

theorem holds_congr {e : Expr} {row other : Env} (h : ∀ n ∈ e.columns, row n = other n) :
    M.holds e row = M.holds e other := by
  have heval := M.eval_congr (f := fun _ : Unit => row) (g := fun _ => other) e [()]
    fun _ _ => h
  rw [holds, holds]
  exact congrArg M.isTrue heval

theorem value_congr {e : Expr} {xs : List α} (h : ∀ x ∈ xs, ∀ n ∈ e.columns, f x n = g x n) :
    M.value e (xs.map f) = M.value e (xs.map g) := by
  rw [value, value, M.eval_congr e xs h]

/-- The value of an expression in a single row. -/
theorem value_congr_row {e : Expr} {row other : Env} (h : ∀ n ∈ e.columns, row n = other n) :
    M.value e [row] = M.value e [other] := by
  have hsame : ∀ _ ∈ [()], ∀ n ∈ e.columns, row n = other n := fun _ _ => h
  exact M.value_congr (f := fun _ : Unit => row) (g := fun _ => other) hsame

end

end Semantics

end SqlChain
