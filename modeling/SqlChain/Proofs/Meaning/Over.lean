import SqlChain.Proofs.Meaning.Chain
import SqlChain.Proofs.Meaning.Windows

/-!
# Values over a window

A window call is evaluated in a row at its place among other rows. What stands behind `OVER` says
which of them it sees and in which order. What stands outside of window calls sees its own row only
(`evalAt_eq_eval`).
-/

namespace SqlChain

/-! ## Places -/

/-- An element at its place among others. -/
structure Place (α : Type) where
  before : List α
  here : α
  after : List α

namespace Place

variable {α β γ : Type}

def all (p : Place α) : List α := p.before ++ p.here :: p.after

def map (f : α → β) (p : Place α) : Place β := ⟨p.before.map f, f p.here, p.after.map f⟩

/-- The place among those that `q` holds for. -/
def among (q : α → Bool) (p : Place α) : Place α := ⟨p.before.filter q, p.here, p.after.filter q⟩

@[simp] theorem here_map (f : α → β) (p : Place α) : (p.map f).here = f p.here := rfl

@[simp] theorem all_map (f : α → β) (p : Place α) : (p.map f).all = p.all.map f := by
  simp [all, map]

@[simp] theorem map_map (f : α → β) (g : β → γ) (p : Place α) :
    (p.map f).map g = p.map fun x => g (f x) := by
  simp [map, Function.comp_def]

theorem here_mem_all (p : Place α) : p.here ∈ p.all := by simp [all]

theorem map_congr {f g : α → β} {p : Place α} (h : ∀ x ∈ p.all, f x = g x) :
    p.map f = p.map g := by
  simp only [all, List.mem_append, List.mem_cons] at h
  rw [map, map, h p.here (by simp), List.map_congr_left fun x hx => h x (.inl hx),
    List.map_congr_left fun x hx => h x (.inr (.inr hx))]

theorem among_map (q : β → Bool) (f : α → β) (p : Place α) :
    (p.map f).among q = (p.among fun x => q (f x)).map f := by
  simp [among, map, List.filter_map, Function.comp_def]

theorem among_congr {q r : α → Bool} {p : Place α} (h : ∀ x ∈ p.all, q x = r x) :
    p.among q = p.among r := by
  simp only [all, List.mem_append, List.mem_cons] at h
  rw [among, among, List.filter_congr fun x hx => h x (.inl hx),
    List.filter_congr fun x hx => h x (.inr (.inr hx))]

theorem mem_all_of_among {q : α → Bool} {p : Place α} {x : α} (h : x ∈ (p.among q).all) :
    x ∈ p.all := by
  simp only [all, among, List.mem_append, List.mem_cons, List.mem_filter] at h ⊢
  exact h.imp And.left (Or.imp_right And.left)

end Place

section

variable {α β : Type}

/-- All elements, each at its place. -/
def places : List α → List (Place α)
  | [] => []
  | x :: xs => ⟨[], x, xs⟩ :: (places xs).map fun p => { p with before := x :: p.before }

theorem map_here_places (xs : List α) : (places xs).map (·.here) = xs := by
  induction xs with
  | nil => rfl
  | cons x xs ih =>
      rw [places, List.map_cons, List.map_map]
      exact congrArg (x :: ·) ih

theorem places_map (f : α → β) (xs : List α) : places (xs.map f) = (places xs).map (Place.map f) := by
  induction xs with
  | nil => rfl
  | cons x xs ih =>
      rw [List.map_cons, places, places, ih, List.map_cons, List.map_map, List.map_map]
      rfl

theorem all_of_mem_places {xs : List α} {p : Place α} (h : p ∈ places xs) : p.all = xs := by
  induction xs generalizing p with
  | nil => cases h
  | cons x xs ih =>
      rcases List.mem_cons.1 h with rfl | h
      · rfl
      · obtain ⟨q, hq, rfl⟩ := List.mem_map.1 h
        exact congrArg (x :: ·) (ih hq)

/-- A place among places is the place of an element among all of them. -/
theorem map_here_of_mem_places {xs : List α} {p : Place (Place α)} (h : p ∈ places (places xs)) :
    p.map (·.here) = p.here := by
  have hmap : (places (places xs)).map (Place.map (·.here)) =
      (places (places xs)).map (·.here) := by
    rw [← places_map, map_here_places, map_here_places]
  exact List.map_inj_left.1 hmap p h

/-- What is said of every element at its place may be said at the place of its place. -/
theorem map_places (f : Place α → β) (xs : List α) :
    (places xs).map f = (places (places xs)).map fun p => f p.here := by
  conv_lhs => rw [← map_here_places (places xs)]
  rw [List.map_map]
  rfl

theorem filter_places (q : α → Bool) (xs : List α) :
    ((places xs).filter fun p => q p.here).map (·.here) = xs.filter q := by
  conv_rhs => rw [← map_here_places xs]
  rw [List.filter_map]
  rfl

end

/-! ## What stands behind `OVER` -/

/-- A call as it is written over a window. -/
structure OverCall where
  args : List (Arg Expr)
  partition : List String
  order : List Expr
  /-- Whether the window ends with the row itself. -/
  running : Bool

/-- How a call of this form is written where a window is allowed. Without an ordering there is no
row with which a window could end. -/
def SqlForm.over? (w : Window) (args : List (Arg Expr)) : SqlForm → Option OverCall
  | .aggregate _ | .countStar | .special .nDistinct =>
    some { args, partition := w.partition, order := [], running := false }
  | .ranking _ =>
    let order := match args with
      | [] => w.order
      | key :: _ => [key.value]
    some { args := [], partition := w.partition, order, running := false }
  | .offset _ => some { args, partition := w.partition, order := w.order, running := false }
  | .cumulative _ =>
    some { args, partition := w.partition, order := w.order, running := !w.order.isEmpty }
  | .ntile =>
    some
      { args := (args.drop 1).take 1
        partition := w.partition
        order := (args.take 1).map Arg.value
        running := false }
  | _ => none

theorem SqlForm.isSome_over? (w : Window) (args : List (Arg Expr)) (form : SqlForm) :
    (form.over? w args).isSome = (form.isAggregate || form.isWindowOnly) := by
  cases form with
  | special form => cases form <;> rfl
  | _ => rfl

/-- The columns that a window is about. -/
def Window.columns (w : Window) : List String := w.partition ++ w.order.flatMap Expr.columns

def OverCall.columns (call : OverCall) : List String :=
  Expr.columnsOfArgs call.args ++ (call.partition ++ call.order.flatMap Expr.columns)

theorem SqlForm.subset_of_over? {w : Window} {args : List (Arg Expr)} {form : SqlForm}
    {call : OverCall} (h : form.over? w args = some call) :
    call.args ⊆ args ∧ call.partition = w.partition ∧
      (call.order ⊆ w.order ∨ call.order ⊆ args.map Arg.value) := by
  cases form with
  | aggregate | countStar | offset | cumulative =>
      cases h
      simp
  | ranking =>
      cases h
      cases args <;> simp
  | ntile =>
      cases h
      refine ⟨?_, rfl, .inr (List.map_subset _ (List.take_subset 1 args))⟩
      exact fun arg harg => List.mem_of_mem_drop (List.mem_of_mem_take harg)
  | special form =>
      cases form with
      | nDistinct =>
          cases h
          simp
      | _ => cases h
  | _ => cases h

/-- A call over a window depends on the columns of the call and of the window. -/
theorem SqlForm.mem_of_over? {w : Window} {args : List (Arg Expr)} {form : SqlForm}
    {call : OverCall} (h : form.over? w args = some call) {n : String} (hn : n ∈ call.columns) :
    n ∈ Expr.columnsOfArgs args ∨ n ∈ w.columns := by
  obtain ⟨hargs, hpartition, horder⟩ := subset_of_over? h
  rw [OverCall.columns, hpartition, List.mem_append, List.mem_append] at hn
  rw [Window.columns, List.mem_append]
  rcases hn with hn | hn | hn
  · obtain ⟨arg, harg, hn⟩ := Expr.mem_columnsOfArgs.1 hn
    exact .inl (Expr.mem_columnsOfArgs.2 ⟨arg, hargs harg, hn⟩)
  · exact .inr (.inl hn)
  · obtain ⟨key, hkey, hn⟩ := List.mem_flatMap.1 hn
    rcases horder with horder | horder
    · exact .inr (.inr (List.mem_flatMap.2 ⟨key, horder hkey, hn⟩))
    · obtain ⟨arg, harg, rfl⟩ := List.mem_map.1 (horder hkey)
      exact .inl (Expr.mem_columnsOfArgs.2 ⟨arg, harg, hn⟩)

/-! ## Evaluation -/

/-- The values of a call in one of the rows that its window sees. -/
structure Peer (ω : Type) where
  args : List (Arg ω)
  /-- The keys of the ordering, each with whether it is descending. -/
  keys : List (Bool × ω)

/-- What windows are evaluated with. -/
structure Windows (ω : Type) extends Semantics ω where
  order : ValueOrder
  /-- The value of a function that is no aggregate in a row at its place among those of its group,
  running up to the row if the flag says so. -/
  peerValue : String → Bool → Place (Peer ω) → Scalar
  toScalar_ofScalar : ∀ v, toScalar (ofScalar v) = v

namespace Windows

variable {ω : Type} (W : Windows ω)

def peer (call : OverCall) (row : Env) : Peer ω where
  args := W.evalArgs call.args [row]
  keys := call.order.map fun key =>
    (key.descending?.isSome, W.eval (key.descending?.getD key) [row])

/-- The value of a call over a window, in a row at its place among all rows. The window has the rows
that agree with this one, nulls being equal to each other. -/
def overValue (function : String) (arity : Nat) (call : OverCall) (p : Place Env) : Scalar :=
  let group := p.among fun other =>
    GroupKey.equal (call.partition.map other) (call.partition.map p.here)
  if W.isAggregate function arity then
    W.toScalar (W.aggregate function (group.all.map fun row => W.evalArgs call.args [row]))
  else W.peerValue function call.running (group.map (W.peer call))

mutual

/-- The value of an expression in a row at its place among all rows. -/
def evalAt (w : Window) (p : Place Env) : Expr → ω
  | .column name => W.ofScalar (p.here name)
  | .literal value => W.ofScalar value
  | .call function args _ =>
    match (W.functions.form? function args.length).bind (·.over? w args) with
    | some call => W.ofScalar (W.overValue function args.length call p)
    | none => W.call function (evalArgsAt w p args)
  | .conditional condition value none =>
    W.conditional (evalAt w p condition) (evalAt w p value) none
  | .conditional condition value (some otherwise) =>
    W.conditional (evalAt w p condition) (evalAt w p value) (some (evalAt w p otherwise))
  | .inList expr candidates => W.inList (evalAt w p expr) (evalListAt w p candidates)
  | .inExpr expr candidates => W.inValue (evalAt w p expr) (evalAt w p candidates)
  | .binary op left right => W.binary op (evalAt w p left) (evalAt w p right)
  | .unary op operand => W.unary op (evalAt w p operand)

def evalArgsAt (w : Window) (p : Place Env) : List (Arg Expr) → List (Arg ω)
  | [] => []
  | ⟨name, e⟩ :: rest => ⟨name, evalAt w p e⟩ :: evalArgsAt w p rest

def evalListAt (w : Window) (p : Place Env) : List Expr → List ω
  | [] => []
  | e :: rest => evalAt w p e :: evalListAt w p rest

end

def valueAt (w : Window) (p : Place Env) (e : Expr) : Scalar := W.toScalar (W.evalAt w p e)

def holdsAt (w : Window) (p : Place Env) (e : Expr) : Bool := W.isTrue (W.evalAt w p e)

/-! ## Dependence on columns -/

section

variable {α : Type} {f g : α → Env} {p : Place α}

theorem overValue_congr (function : String) (arity : Nat) {call : OverCall}
    (h : ∀ x ∈ p.all, ∀ n ∈ call.columns, f x n = g x n) :
    W.overValue function arity call (p.map f) = W.overValue function arity call (p.map g) := by
  simp only [OverCall.columns, List.mem_append] at h
  have hkeys : ∀ x ∈ p.all, call.partition.map (f x) = call.partition.map (g x) :=
    fun x hx => List.map_congr_left fun n hn => h x hx n (.inr (.inl hn))
  have hsame : ∀ x ∈ p.all,
      GroupKey.equal (call.partition.map (f x)) (call.partition.map (f p.here)) =
        GroupKey.equal (call.partition.map (g x)) (call.partition.map (g p.here)) := by
    intro x hx
    rw [hkeys x hx, hkeys p.here p.here_mem_all]
  have hargs : ∀ x ∈ p.all, W.evalArgs call.args [f x] = W.evalArgs call.args [g x] := by
    intro x hx
    exact W.evalArgs_congr call.args [x] (by simpa using fun n hn => h x hx n (.inl hn))
  have hpeer : ∀ x ∈ p.all, W.peer call (f x) = W.peer call (g x) := by
    intro x hx
    rw [peer, peer, hargs x hx]
    congr 1
    refine List.map_congr_left fun key hkey => ?_
    refine congrArg _ (W.eval_congr _ [x] fun y hy n hn => ?_)
    rw [List.mem_singleton.1 hy]
    rw [Expr.columns_descending] at hn
    exact h x hx n (.inr (.inr (List.mem_flatMap.2 ⟨key, hkey, hn⟩)))
  rw [overValue, overValue, Place.here_map, Place.here_map, Place.among_map, Place.among_map,
    Place.among_congr hsame, Place.all_map, Place.all_map, List.map_map, List.map_map,
    Place.map_map, Place.map_map]
  congr 1
  · refine congrArg _ (congrArg _ (List.map_congr_left fun x hx => ?_))
    exact hargs x (Place.mem_all_of_among hx)
  · exact congrArg _ (Place.map_congr fun x hx => hpeer x (Place.mem_all_of_among hx))

variable {w : Window}

mutual

/-- Only the columns of the expression and of the window have an influence on a value. -/
theorem evalAt_congr (hw : ∀ x ∈ p.all, ∀ n ∈ w.columns, f x n = g x n) :
    ∀ e : Expr, (∀ x ∈ p.all, ∀ n ∈ e.columns, f x n = g x n) →
      W.evalAt w (p.map f) e = W.evalAt w (p.map g) e
  | .column name, h => by
    have hname : (p.map f).here name = (p.map g).here name :=
      h p.here p.here_mem_all name (by simp [Expr.columns])
    rw [evalAt, evalAt, hname]
  | .literal _, _ => rfl
  | .call function args _, h => by
    rw [Expr.columns] at h
    rw [evalAt, evalAt]
    cases hcall : (W.functions.form? function args.length).bind (·.over? w args) with
    | none => exact congrArg _ (evalArgsAt_congr hw args h)
    | some call =>
        obtain ⟨form, _, hover⟩ := Option.bind_eq_some_iff.1 hcall
        refine congrArg W.ofScalar (W.overValue_congr function _ fun x hx n hn => ?_)
        exact (SqlForm.mem_of_over? hover hn).elim (h x hx n) (hw x hx n)
  | .conditional condition value none, h => by
    have hc := evalAt_congr hw condition fun x hx n hn => h x hx n (by simp [Expr.columns, hn])
    have hv := evalAt_congr hw value fun x hx n hn => h x hx n (by simp [Expr.columns, hn])
    rw [evalAt, evalAt, hc, hv]
  | .conditional condition value (some otherwise), h => by
    have hc := evalAt_congr hw condition fun x hx n hn => h x hx n (by simp [Expr.columns, hn])
    have hv := evalAt_congr hw value fun x hx n hn => h x hx n (by simp [Expr.columns, hn])
    have ho := evalAt_congr hw otherwise fun x hx n hn => h x hx n (by simp [Expr.columns, hn])
    rw [evalAt, evalAt, hc, hv, ho]
  | .inList expr candidates, h => by
    have he := evalAt_congr hw expr fun x hx n hn => h x hx n (by simp [Expr.columns, hn])
    have hc := evalListAt_congr hw candidates
      fun x hx n hn => h x hx n (by simp [Expr.columns, hn])
    rw [evalAt, evalAt, he, hc]
  | .inExpr left right, h | .binary _ left right, h => by
    have hl := evalAt_congr hw left fun x hx n hn => h x hx n (by simp [Expr.columns, hn])
    have hr := evalAt_congr hw right fun x hx n hn => h x hx n (by simp [Expr.columns, hn])
    rw [evalAt, evalAt, hl, hr]
  | .unary _ operand, h => by rw [evalAt, evalAt, evalAt_congr hw operand h]

theorem evalArgsAt_congr (hw : ∀ x ∈ p.all, ∀ n ∈ w.columns, f x n = g x n) :
    ∀ args : List (Arg Expr), (∀ x ∈ p.all, ∀ n ∈ Expr.columnsOfArgs args, f x n = g x n) →
      W.evalArgsAt w (p.map f) args = W.evalArgsAt w (p.map g) args
  | [], _ => rfl
  | ⟨_, e⟩ :: rest, h => by
    have he := evalAt_congr hw e fun x hx n hn => h x hx n (by simp [Expr.columnsOfArgs, hn])
    have hrest := evalArgsAt_congr hw rest
      fun x hx n hn => h x hx n (by simp [Expr.columnsOfArgs, hn])
    rw [evalArgsAt, evalArgsAt, he, hrest]

theorem evalListAt_congr (hw : ∀ x ∈ p.all, ∀ n ∈ w.columns, f x n = g x n) :
    ∀ es : List Expr, (∀ x ∈ p.all, ∀ n ∈ Expr.columnsOfList es, f x n = g x n) →
      W.evalListAt w (p.map f) es = W.evalListAt w (p.map g) es
  | [], _ => rfl
  | e :: rest, h => by
    have he := evalAt_congr hw e fun x hx n hn => h x hx n (by simp [Expr.columnsOfList, hn])
    have hrest := evalListAt_congr hw rest
      fun x hx n hn => h x hx n (by simp [Expr.columnsOfList, hn])
    rw [evalListAt, evalListAt, he, hrest]

end

theorem valueAt_congr (hw : ∀ x ∈ p.all, ∀ n ∈ w.columns, f x n = g x n) {e : Expr}
    (h : ∀ x ∈ p.all, ∀ n ∈ e.columns, f x n = g x n) :
    W.valueAt w (p.map f) e = W.valueAt w (p.map g) e := by
  rw [valueAt, valueAt, W.evalAt_congr hw e h]

end

/-! ## Expressions without windows -/

section

variable {W} {c : Compiler} (hfunctions : c.functions = W.functions) (w : Window) (p : Place Env)

include hfunctions

/-- A call is evaluated over a window if it is one that needs a window. -/
theorem isSome_over? (function : String) (args : List (Arg Expr)) :
    ((W.functions.form? function args.length).bind (·.over? w args)).isSome =
      c.isWindowCall function args.length false := by
  rw [Compiler.isWindowCall, hfunctions]
  cases W.functions.form? function args.length with
  | none => rfl
  | some form => exact form.isSome_over? w args

/-- What is left of a call that is not evaluated over a window is no aggregate. -/
theorem eval_call {function : String} {args : List (Arg Expr)} {window : Bool}
    (h : c.isWindowCall function args.length window = false) (rows : List Env) :
    W.eval (.call function args window) rows = W.call function (W.evalArgs args rows) := by
  have hnone : W.isAggregate function args.length = false := by
    rw [Compiler.isWindowCall, hfunctions, Bool.or_eq_false_iff] at h
    rw [Semantics.isAggregate]
    cases hform : W.functions.form? function args.length with
    | none => rfl
    | some form =>
        rw [hform] at h
        exact (Bool.or_eq_false_iff.1 h.2).1
  rw [Semantics.eval, hnone, if_neg Bool.false_ne_true]

theorem evalAt_call {function : String} {args : List (Arg Expr)} {window : Bool}
    (h : c.isWindowCall function args.length window = false) :
    W.evalAt w p (.call function args window) = W.call function (W.evalArgsAt w p args) := by
  have hflag : c.isWindowCall function args.length false = false := by
    rw [Compiler.isWindowCall, Bool.or_eq_false_iff] at h
    rw [Compiler.isWindowCall, h.2, Bool.or_false]
  have hnone : (W.functions.form? function args.length).bind (·.over? w args) = none := by
    rw [← Option.not_isSome_iff_eq_none, isSome_over? hfunctions, hflag]
    exact Bool.false_ne_true
  rw [evalAt, hnone]

end

section

variable {W} {c : Compiler} {w : Window} {p : Place Env}

mutual

/-- Without window calls, a value depends on its own row only. -/
theorem evalAt_eq_eval (hfunctions : c.functions = W.functions) :
    ∀ e : Expr, c.needsWindow e = false → W.evalAt w p e = W.eval e [p.here]
  | .column _, _ | .literal _, _ => rfl
  | .call function args window, h => by
    obtain ⟨hcall, hargs⟩ := Bool.or_eq_false_iff.1 h
    rw [evalAt_call hfunctions w p hcall, eval_call hfunctions hcall,
      evalArgsAt_eq_evalArgs hfunctions args hargs]
  | .conditional condition value none, h => by
    obtain ⟨hc, hv⟩ := Bool.or_eq_false_iff.1 h
    rw [evalAt, Semantics.eval, evalAt_eq_eval hfunctions condition hc,
      evalAt_eq_eval hfunctions value hv]
  | .conditional condition value (some otherwise), h => by
    obtain ⟨h, ho⟩ := Bool.or_eq_false_iff.1 h
    obtain ⟨hc, hv⟩ := Bool.or_eq_false_iff.1 h
    rw [evalAt, Semantics.eval, evalAt_eq_eval hfunctions condition hc,
      evalAt_eq_eval hfunctions value hv, evalAt_eq_eval hfunctions otherwise ho]
  | .inList expr candidates, h => by
    obtain ⟨he, hs⟩ := Bool.or_eq_false_iff.1 h
    rw [evalAt, Semantics.eval, evalAt_eq_eval hfunctions expr he,
      evalListAt_eq_evalList hfunctions candidates hs]
  | .inExpr left right, h | .binary _ left right, h => by
    obtain ⟨hl, hr⟩ := Bool.or_eq_false_iff.1 h
    rw [evalAt, Semantics.eval, evalAt_eq_eval hfunctions left hl,
      evalAt_eq_eval hfunctions right hr]
  | .unary _ operand, h => by
    rw [evalAt, Semantics.eval, evalAt_eq_eval hfunctions operand h]

theorem evalArgsAt_eq_evalArgs (hfunctions : c.functions = W.functions) :
    ∀ args : List (Arg Expr), Expr.anyArg c.isWindowExpr args = false →
      W.evalArgsAt w p args = W.evalArgs args [p.here]
  | [], _ => rfl
  | ⟨_, e⟩ :: rest, h => by
    obtain ⟨he, hrest⟩ := Bool.or_eq_false_iff.1 h
    rw [evalArgsAt, Semantics.evalArgs, evalAt_eq_eval hfunctions e he,
      evalArgsAt_eq_evalArgs hfunctions rest hrest]

theorem evalListAt_eq_evalList (hfunctions : c.functions = W.functions) :
    ∀ es : List Expr, Expr.anyOf c.isWindowExpr es = false →
      W.evalListAt w p es = W.evalList es [p.here]
  | [], _ => rfl
  | e :: rest, h => by
    obtain ⟨he, hrest⟩ := Bool.or_eq_false_iff.1 h
    rw [evalListAt, Semantics.evalList, evalAt_eq_eval hfunctions e he,
      evalListAt_eq_evalList hfunctions rest hrest]

end

end

/-! ## Integers -/

/-- Whether a row comes before another by the keys of an ordering. -/
def precedes : List (Bool × Scalar) → List (Bool × Scalar) → Bool
  | (descending, x) :: xs, (_, y) :: ys =>
    let order := ValueOrder.standard.directed descending
    order.before x y || (!order.before y x && precedes xs ys)
  | _, _ => false

/-- The rows that come before one in the order of the keys, and in place where these are equal. -/
def front (p : Place (Peer Scalar)) : List (Peer Scalar) :=
  p.before.filter (fun q => !precedes p.here.keys q.keys) ++
    p.after.filter fun q => precedes q.keys p.here.keys

/-- Integers with their sums and counts, running and in total, and the numbers of rows. -/
def integers (rows : List Env) : Windows Scalar where
  toSemantics := .integers rows
  order := .standard
  peerValue
    | "row_number", _, p => .int64 (.ofNat ((front p).length + 1))
    | "cumsum", running, p =>
      let seen := if running then p.here :: front p else p.all
      (Semantics.integers rows).aggregate "sum" (seen.map (·.args))
    | _, _, _ => .null
  toScalar_ofScalar _ := rfl

end Windows

end SqlChain
