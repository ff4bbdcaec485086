import SqlChain.Operator
import SqlChain.Scalar

/-!
# Expressions

An expression computes a value from the columns of a row. Its leaves are columns and literals.
`Expr.induct` is the induction over subexpressions, with a hypothesis for every child.
-/

namespace SqlChain

/-- An argument of a call, with a name if it was given one. -/
structure Arg (α : Type) where
  name : Option String
  value : α
deriving DecidableEq, Repr

inductive Expr where
  | column (name : String)
  | literal (value : Scalar)
  /-- The flag asks for evaluation over a window. -/
  | call (function : String) (args : List (Arg Expr)) (window : Bool)
  | conditional (condition value : Expr) (otherwise : Option Expr)
  | inList (expr : Expr) (candidates : List Expr)
  /-- Membership in the value of another expression. -/
  | inExpr (expr candidates : Expr)
  | binary (op : BinaryOp) (left right : Expr)
  | unary (op : UnaryOp) (operand : Expr)
deriving Repr

namespace Expr

/-- The subexpressions directly below, from left to right. -/
def children : Expr → List Expr
  | .column _ | .literal _ => []
  | .call _ args _ => args.map Arg.value
  | .conditional condition value otherwise => [condition, value] ++ otherwise.toList
  | .inList expr candidates => expr :: candidates
  | .inExpr expr candidates => [expr, candidates]
  | .binary _ left right => [left, right]
  | .unary _ operand => [operand]

mutual

/-- What holds of an expression whenever it holds of its children holds of every expression. -/
theorem induct {P : Expr → Prop} (step : ∀ e, (∀ c ∈ e.children, P c) → P e) : ∀ e, P e
  | .column _ | .literal _ => step _ fun _ h => by cases h
  | .call _ args _ => step _ fun c h => by
    have hs := induct_args step args
    obtain ⟨a, ha, rfl⟩ := List.mem_map.1 h
    exact hs a ha
  | .conditional condition value none => step _ fun c h => by
    have hc := induct step condition
    have hv := induct step value
    simp only [children, Option.toList_none, List.append_nil, List.mem_cons, List.not_mem_nil,
      or_false] at h
    rcases h with rfl | rfl
    · exact hc
    · exact hv
  | .conditional condition value (some e) => step _ fun c h => by
    have hc := induct step condition
    have hv := induct step value
    have he := induct step e
    simp only [children, Option.toList_some, List.mem_append, List.mem_cons, List.not_mem_nil,
      or_false] at h
    rcases h with (rfl | rfl) | rfl
    · exact hc
    · exact hv
    · exact he
  | .inList expr candidates => step _ fun c h => by
    have he := induct step expr
    have hs := induct_list step candidates
    rcases List.mem_cons.1 h with h | h
    · exact h ▸ he
    · exact hs c h
  | .inExpr left right | .binary _ left right => step _ fun c h => by
    have hl := induct step left
    have hr := induct step right
    simp only [children, List.mem_cons, List.not_mem_nil, or_false] at h
    rcases h with rfl | rfl
    · exact hl
    · exact hr
  | .unary _ operand => step _ fun c h => by
    have ho := induct step operand
    simp only [children, List.mem_cons, List.not_mem_nil, or_false] at h
    exact h ▸ ho

theorem induct_args {P : Expr → Prop} (step : ∀ e, (∀ c ∈ e.children, P c) → P e) :
    ∀ args : List (Arg Expr), ∀ a ∈ args, P a.value
  | [], _, h => by cases h
  | ⟨_, e⟩ :: rest, a, h => by
    have head := induct step e
    have tail := induct_args step rest a
    rcases List.mem_cons.1 h with h | h
    · exact h ▸ head
    · exact tail h

theorem induct_list {P : Expr → Prop} (step : ∀ e, (∀ c ∈ e.children, P c) → P e) :
    ∀ es : List Expr, ∀ e ∈ es, P e
  | [], _, h => by cases h
  | e :: rest, a, h => by
    have head := induct step e
    have tail := induct_list step rest a
    rcases List.mem_cons.1 h with h | h
    · exact h ▸ head
    · exact tail h

end

def asColumn? : Expr → Option String
  | .column name => some name
  | _ => none

/-- A call with unnamed arguments that is not flagged for a window. -/
def plainCall (function : String) (args : List Expr) : Expr :=
  .call function (args.map fun e => ⟨none, e⟩) false

/-- The operand of the marker for descending order. -/
def descending? : Expr → Option Expr
  | .call "desc" [arg] _ => some arg.value
  | _ => none

mutual

/-- Whether the expression or a subexpression at some depth satisfies `p`. -/
def any (p : Expr → Bool) : Expr → Bool
  | .column name => p (.column name)
  | .literal value => p (.literal value)
  | .call function args window => p (.call function args window) || anyArg p args
  | .conditional condition value none =>
    p (.conditional condition value none) || condition.any p || value.any p
  | .conditional condition value (some e) =>
    p (.conditional condition value (some e)) || condition.any p || value.any p || e.any p
  | .inList expr candidates =>
    p (.inList expr candidates) || expr.any p || anyOf p candidates
  | .inExpr expr candidates =>
    p (.inExpr expr candidates) || expr.any p || candidates.any p
  | .binary op left right => p (.binary op left right) || left.any p || right.any p
  | .unary op operand => p (.unary op operand) || operand.any p

def anyArg (p : Expr → Bool) : List (Arg Expr) → Bool
  | [] => false
  | ⟨_, e⟩ :: rest => e.any p || anyArg p rest

def anyOf (p : Expr → Bool) : List Expr → Bool
  | [] => false
  | e :: rest => e.any p || anyOf p rest

end

/-- What holds nowhere in an expression holds nowhere in its children. -/
theorem any_eq_false {p : Expr → Bool} {e : Expr} (h : e.any p = false) :
    p e = false ∧ ∀ child ∈ e.children, child.any p = false := by
  have hargs : ∀ args : List (Arg Expr), anyArg p args = false →
      ∀ child ∈ args.map Arg.value, child.any p = false := by
    intro args
    induction args with
    | nil => simp
    | cons arg args ih => simpa [anyArg] using fun hfirst hrest => ⟨hfirst, by simpa using ih hrest⟩
  have hlist : ∀ es : List Expr, anyOf p es = false → ∀ child ∈ es, child.any p = false := by
    intro es
    induction es with
    | nil => simp
    | cons e es ih => simpa [anyOf] using fun hfirst hrest => ⟨hfirst, ih hrest⟩
  cases e with
  | column | literal => exact ⟨by simpa [any] using h, by simp [children]⟩
  | call function args window =>
      simp only [any, Bool.or_eq_false_iff] at h
      exact ⟨h.1, hargs args h.2⟩
  | conditional condition value otherwise =>
      cases otherwise <;> simp only [any, Bool.or_eq_false_iff] at h <;> simp [children, h]
  | inList operand candidates =>
      simp only [any, Bool.or_eq_false_iff] at h
      exact ⟨h.1.1, List.forall_mem_cons.2 ⟨h.1.2, hlist candidates h.2⟩⟩
  | inExpr | binary | unary =>
      simp only [any, Bool.or_eq_false_iff] at h
      simp [children, h]

theorem any_eq_false_of {p : Expr → Bool} {e : Expr} (h : p e = false)
    (hchildren : ∀ child ∈ e.children, child.any p = false) : e.any p = false := by
  have hargs : ∀ args : List (Arg Expr), (∀ child ∈ args.map Arg.value, child.any p = false) →
      anyArg p args = false := by
    intro args
    induction args with
    | nil => exact fun _ => rfl
    | cons arg args ih => simp_all [anyArg]
  have hlist : ∀ es : List Expr, (∀ child ∈ es, child.any p = false) → anyOf p es = false := by
    intro es
    induction es with
    | nil => exact fun _ => rfl
    | cons e es ih => simp_all [anyOf]
  cases e with
  | column | literal => exact h
  | call function args window => simp [any, h, hargs args hchildren]
  | conditional condition value otherwise =>
      cases otherwise <;> simp_all [any, children]
  | inList operand candidates =>
      obtain ⟨hoperand, hcandidates⟩ := List.forall_mem_cons.1 hchildren
      simp [any, h, hoperand, hlist candidates hcandidates]
  | inExpr | binary | unary => simp_all [any, children]

mutual

/-- Ordinary equality, in which a NaN literal differs from itself. -/
def equal : Expr → Expr → Bool
  | .column a, .column b => a == b
  | .literal a, .literal b => a.equal b
  | .call f as v, .call g bs w => f == g && equalArgs as bs && v == w
  | .conditional a b none, .conditional c d none => a.equal c && b.equal d
  | .conditional a b (some e), .conditional c d (some f) =>
    a.equal c && b.equal d && e.equal f
  | .inList a as, .inList b bs => a.equal b && equalList as bs
  | .inExpr a b, .inExpr c d => a.equal c && b.equal d
  | .binary o a b, .binary p c d => o == p && a.equal c && b.equal d
  | .unary o a, .unary p b => o == p && a.equal b
  | _, _ => false

def equalArgs : List (Arg Expr) → List (Arg Expr) → Bool
  | [], [] => true
  | ⟨m, a⟩ :: as, ⟨n, b⟩ :: bs => m == n && a.equal b && equalArgs as bs
  | _, _ => false

def equalList : List Expr → List Expr → Bool
  | [], [] => true
  | a :: as, b :: bs => a.equal b && equalList as bs
  | _, _ => false

end

end Expr

end SqlChain
