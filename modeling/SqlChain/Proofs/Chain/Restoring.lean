import SqlChain.Proofs.Chain.Extraction

/-!
# Putting extracted calls back

The calls that are taken out of an expression are the outermost ones that are asked for, from left
to right. Each of them leaves one column behind, and with the calls put back in place of these
columns the expression is what it was. So no column of the expression is lost and none is added.
-/

namespace SqlChain

namespace Expr

mutual

/-- The expression with an expression in place of every column, all at the same time. -/
def substitute (f : String → Expr) : Expr → Expr
  | .column name => f name
  | .literal value => .literal value
  | .call function args window => .call function (substituteArgs f args) window
  | .conditional condition value none =>
    .conditional (condition.substitute f) (value.substitute f) none
  | .conditional condition value (some e) =>
    .conditional (condition.substitute f) (value.substitute f) (some (e.substitute f))
  | .inList expr candidates => .inList (expr.substitute f) (substituteList f candidates)
  | .inExpr expr candidates => .inExpr (expr.substitute f) (candidates.substitute f)
  | .binary op left right => .binary op (left.substitute f) (right.substitute f)
  | .unary op operand => .unary op (operand.substitute f)

def substituteArgs (f : String → Expr) : List (Arg Expr) → List (Arg Expr)
  | [] => []
  | ⟨name, e⟩ :: rest => ⟨name, e.substitute f⟩ :: substituteArgs f rest

def substituteList (f : String → Expr) : List Expr → List Expr
  | [] => []
  | e :: rest => e.substitute f :: substituteList f rest

end

mutual

/-- The columns of the expressions that are put in, in the order of the columns they replace. -/
theorem columns_substitute (f : String → Expr) :
    ∀ e : Expr, (e.substitute f).columns = e.columns.flatMap fun n => (f n).columns
  | .column name => by simp [substitute, columns]
  | .literal _ => rfl
  | .call _ args _ => columns_substituteArgs f args
  | .conditional condition value none => by
    simp [substitute, columns, columns_substitute f condition, columns_substitute f value]
  | .conditional condition value (some e) => by
    simp [substitute, columns, columns_substitute f condition, columns_substitute f value,
      columns_substitute f e]
  | .inList expr candidates => by
    simp [substitute, columns, columns_substitute f expr, columns_substituteList f candidates]
  | .inExpr expr candidates => by
    simp [substitute, columns, columns_substitute f expr, columns_substitute f candidates]
  | .binary _ left right => by
    simp [substitute, columns, columns_substitute f left, columns_substitute f right]
  | .unary _ operand => columns_substitute f operand

theorem columns_substituteArgs (f : String → Expr) :
    ∀ args : List (Arg Expr), columnsOfArgs (substituteArgs f args) =
      (columnsOfArgs args).flatMap fun n => (f n).columns
  | [] => rfl
  | ⟨_, e⟩ :: rest => by
    simp [substituteArgs, columnsOfArgs, columns_substitute f e, columns_substituteArgs f rest]

theorem columns_substituteList (f : String → Expr) :
    ∀ es : List Expr, columnsOfList (substituteList f es) =
      (columnsOfList es).flatMap fun n => (f n).columns
  | [] => rfl
  | e :: rest => by
    simp [substituteList, columnsOfList, columns_substitute f e, columns_substituteList f rest]

end

mutual

/-- The calls for which `p` holds and that are not within another one, from left to right. -/
def outermost (p : String → Nat → Bool → Bool) : Expr → List Expr
  | .column _ | .literal _ => []
  | .call function args window =>
    if p function args.length window then [.call function args window] else outermostOfArgs p args
  | .conditional condition value none => condition.outermost p ++ value.outermost p
  | .conditional condition value (some e) =>
    condition.outermost p ++ value.outermost p ++ e.outermost p
  | .inList expr candidates => expr.outermost p ++ outermostOfList p candidates
  | .inExpr expr candidates => expr.outermost p ++ candidates.outermost p
  | .binary _ left right => left.outermost p ++ right.outermost p
  | .unary _ operand => operand.outermost p

def outermostOfArgs (p : String → Nat → Bool → Bool) : List (Arg Expr) → List Expr
  | [] => []
  | ⟨_, e⟩ :: rest => e.outermost p ++ outermostOfArgs p rest

def outermostOfList (p : String → Nat → Bool → Bool) : List Expr → List Expr
  | [] => []
  | e :: rest => e.outermost p ++ outermostOfList p rest

end

end Expr

/-! ## One extraction -/

namespace Extraction

variable {p : String → Nat → Bool → Bool}

/-- How an extraction goes on while `calls` are taken out and the columns `rest` are left of
`columns`. With each call in place of its column, and any other column in its own, what is left is
`Whole` again. -/
def Restores (before after : Extraction) (columns rest : List String) (calls : List Expr)
    (Whole : (String → Expr) → Prop) : Prop :=
  ∃ taken : List ExtractedCall, after.calls = before.calls ++ taken ∧
    taken.map (·.call) = calls ∧
    (∀ f : String → Expr, (∀ n ∈ columns, f n = .column n) →
      (∀ y ∈ taken, f y.temporary = y.call) → Whole f) ∧
    ∀ temporary : String → Bool, (∀ n ∈ columns, temporary n = false) →
      (∀ y ∈ taken, temporary y.temporary = true) →
      rest.filter temporary = taken.map (·.temporary)

namespace Restores

variable {x y z : Extraction} {columns rest others left : List String} {calls more : List Expr}
  {Whole Other : (String → Expr) → Prop}

/-- An expression in which nothing is asked for is left as it is. -/
theorem refl (x : Extraction) (columns : List String)
    (h : ∀ f : String → Expr, (∀ n ∈ columns, f n = .column n) → Whole f) :
    Restores x x columns columns [] Whole := by
  refine ⟨[], (List.append_nil _).symm, rfl, fun f hf _ => h f hf, fun temporary hcolumns _ => ?_⟩
  exact List.filter_eq_nil_iff.2 fun n hn => by simp [hcolumns n hn]

theorem imp (h : Restores x y columns rest calls Whole) (hwhole : ∀ f, Whole f → Other f) :
    Restores x y columns rest calls Other := by
  obtain ⟨taken, htaken, hcalls, hback, htemporary⟩ := h
  exact ⟨taken, htaken, hcalls, fun f hf hy => hwhole f (hback f hf hy), htemporary⟩

theorem append (h : Restores x y columns rest calls Whole)
    (hnext : Restores y z others left more Other) :
    Restores x z (columns ++ others) (rest ++ left) (calls ++ more)
      fun f => Whole f ∧ Other f := by
  obtain ⟨taken, htaken, hcalls, hback, htemporary⟩ := h
  obtain ⟨next, hnextTaken, hmore, hother, hleft⟩ := hnext
  refine ⟨taken ++ next, by rw [hnextTaken, htaken, List.append_assoc],
    by rw [List.map_append, hcalls, hmore], fun f hf hy => ?_, fun temporary hn hy => ?_⟩
  · rw [List.forall_mem_append] at hf hy
    exact ⟨hback f hf.1 hy.1, hother f hf.2 hy.2⟩
  · rw [List.forall_mem_append] at hn hy
    rw [List.filter_append, List.map_append, htemporary temporary hn.1 hy.1,
      hleft temporary hn.2 hy.2]

end Restores

theorem restores_take (function : String) (args : List (Arg Expr)) (window : Bool)
    (x : Extraction) :
    Restores x (take function args window x).2 (Expr.columnsOfArgs args)
      (take function args window x).1.columns [.call function args window] fun f =>
        (take function args window x).1.substitute f = .call function args window := by
  let taken : ExtractedCall := { temporary := temporaryName (x.issued + 1), function, args, window }
  refine ⟨[taken], rfl, rfl, fun f _ hy => hy taken (List.mem_singleton.2 rfl),
    fun temporary _ hy => ?_⟩
  exact List.filter_eq_self.2 fun n hn => by
    rw [List.mem_singleton.1 hn]
    exact hy taken (List.mem_singleton.2 rfl)

end Extraction

namespace Expr

open Extraction

variable (p : String → Nat → Bool → Bool)

mutual

theorem restores_extract : ∀ (e : Expr) (x : Extraction),
    Restores x ((e.extract p).run x).2 e.columns ((e.extract p).run x).1.columns (e.outermost p)
      fun f => ((e.extract p).run x).1.substitute f = e
  | .column name, x => .refl x _ fun _ hf => hf name (List.mem_singleton.2 rfl)
  | .literal value, x => .refl x _ fun _ _ => rfl
  | .call function args window, x => by
    rw [extract, outermost]
    split
    · exact restores_take function args window x
    · exact (restores_extractArgs args x).imp fun _ hargs =>
        congrArg (Expr.call function · window) hargs
  | .conditional condition value none, x => by
    have hcondition := restores_extract condition x
    have hvalue := restores_extract value ((condition.extract p).run x).2
    refine (hcondition.append hvalue).imp ?_
    rintro f ⟨hc, hv⟩
    exact congrArg₂ (Expr.conditional · · none) hc hv
  | .conditional condition value (some otherwise), x => by
    have hcondition := restores_extract condition x
    have hvalue := restores_extract value ((condition.extract p).run x).2
    have hotherwise := restores_extract otherwise
      ((value.extract p).run ((condition.extract p).run x).2).2
    refine ((hcondition.append hvalue).append hotherwise).imp ?_
    rintro f ⟨⟨hc, hv⟩, ho⟩
    exact congr (congrArg₂ Expr.conditional hc hv) (congrArg some ho)
  | .inList expr candidates, x => by
    have hexpr := restores_extract expr x
    have hcandidates := restores_extractList candidates ((expr.extract p).run x).2
    refine (hexpr.append hcandidates).imp ?_
    rintro f ⟨he, hc⟩
    exact congrArg₂ Expr.inList he hc
  | .inExpr expr candidates, x => by
    have hexpr := restores_extract expr x
    have hcandidates := restores_extract candidates ((expr.extract p).run x).2
    refine (hexpr.append hcandidates).imp ?_
    rintro f ⟨he, hc⟩
    exact congrArg₂ Expr.inExpr he hc
  | .binary op left right, x => by
    have hleft := restores_extract left x
    have hright := restores_extract right ((left.extract p).run x).2
    refine (hleft.append hright).imp ?_
    rintro f ⟨hl, hr⟩
    exact congrArg₂ (Expr.binary op) hl hr
  | .unary op operand, x =>
    (restores_extract operand x).imp fun _ ho => congrArg (Expr.unary op) ho

theorem restores_extractArgs : ∀ (args : List (Arg Expr)) (x : Extraction),
    Restores x ((extractArgs p args).run x).2 (columnsOfArgs args)
      (columnsOfArgs ((extractArgs p args).run x).1) (outermostOfArgs p args)
      fun f => substituteArgs f ((extractArgs p args).run x).1 = args
  | [], x => .refl x _ fun _ _ => rfl
  | ⟨name, e⟩ :: rest, x => by
    have he := restores_extract e x
    have hrest := restores_extractArgs rest ((e.extract p).run x).2
    refine (he.append hrest).imp ?_
    rintro f ⟨hfirst, hothers⟩
    exact congrArg₂ (fun e rest => (⟨name, e⟩ : Arg Expr) :: rest) hfirst hothers

theorem restores_extractList : ∀ (es : List Expr) (x : Extraction),
    Restores x ((extractList p es).run x).2 (columnsOfList es)
      (columnsOfList ((extractList p es).run x).1) (outermostOfList p es)
      fun f => substituteList f ((extractList p es).run x).1 = es
  | [], x => .refl x _ fun _ _ => rfl
  | e :: rest, x => by
    have he := restores_extract e x
    have hrest := restores_extractList rest ((e.extract p).run x).2
    refine (he.append hrest).imp ?_
    rintro f ⟨hfirst, hothers⟩
    exact congrArg₂ List.cons hfirst hothers

end

end Expr

end SqlChain
