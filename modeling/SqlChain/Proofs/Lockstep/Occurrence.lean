import SqlChain.Expr.Columns
import SqlChain.Expr.Extraction

/-!
# Calls that occur in an expression

What all calls of an expression have in common, at any depth, is left alone when columns get other
names (`callsAll_mapColumns`) and when calls are taken out of it (`keeps_extract`).
-/

namespace SqlChain

namespace Expr

/-- Whether the expression itself is a call of this function with so many arguments. -/
def isCallOf (function : String) (arity : Nat) : Expr → Bool
  | .call f args _ => f == function && args.length == arity
  | _ => false

/-- All calls in the expression, at any depth, satisfy `p`. -/
def CallsAll (p : String → Nat → Prop) (e : Expr) : Prop :=
  ∀ function arity, e.any (isCallOf function arity) = true → p function arity

variable {p : String → Nat → Prop} {e : Expr}

theorem callsAll_of_child (h : e.CallsAll p) {child : Expr} (hchild : child ∈ e.children) :
    child.CallsAll p := by
  intro function arity hcall
  refine h function arity ?_
  cases hany : e.any (isCallOf function arity) with
  | true => rfl
  | false =>
      have hnone := (any_eq_false hany).2 child hchild
      rw [hnone] at hcall
      cases hcall

theorem callsAll_call {function : String} {args : List (Arg Expr)} {window : Bool}
    (h : (Expr.call function args window).CallsAll p) : p function args.length :=
  h function args.length (by simp [any, isCallOf])

theorem callsAll_of_children
    (h : ∀ function args window, e = .call function args window → p function args.length)
    (hchildren : ∀ child ∈ e.children, child.CallsAll p) : e.CallsAll p := by
  intro function arity hcall
  refine Classical.byContradiction fun hnone => ?_
  have hself : e.isCallOf function arity = false := by
    rw [← Bool.not_eq_true]
    intro hself
    cases e with
    | call f args window =>
        simp only [isCallOf, Bool.and_eq_true, beq_iff_eq] at hself
        obtain ⟨rfl, rfl⟩ := hself
        exact hnone (h f args window rfl)
    | _ => cases hself
  have hfalse : e.any (isCallOf function arity) = false := by
    refine any_eq_false_of hself fun child hchild => ?_
    rw [← Bool.not_eq_true]
    exact fun hinner => hnone (hchildren child hchild function arity hinner)
  rw [hfalse] at hcall
  cases hcall

theorem callsAll_column (name : String) : (column name).CallsAll p :=
  callsAll_of_children (by simp) nofun

theorem callsAll_descending (h : e.CallsAll p) : (e.descending?.getD e).CallsAll p := by
  unfold descending?
  split
  · exact callsAll_of_child h (by simp [children])
  · exact h

/-! ## Names of columns -/

theorem mapColumnsOfArgs_eq_map (f : String → String) (args : List (Arg Expr)) :
    mapColumnsOfArgs f args = args.map fun arg => ⟨arg.name, arg.value.mapColumns f⟩ := by
  induction args with
  | nil => rfl
  | cons arg rest ih => rw [mapColumnsOfArgs, ih, List.map_cons]

theorem mapColumnsOfList_eq_map (f : String → String) (es : List Expr) :
    mapColumnsOfList f es = es.map (mapColumns f) := by
  induction es with
  | nil => rfl
  | cons e rest ih => rw [mapColumnsOfList, ih, List.map_cons]

theorem children_mapColumns (f : String → String) (e : Expr) :
    (e.mapColumns f).children = e.children.map (mapColumns f) := by
  cases e with
  | call function args window =>
      rw [mapColumns, children, children, mapColumnsOfArgs_eq_map, List.map_map, List.map_map]
      rfl
  | conditional condition value otherwise => cases otherwise <;> rfl
  | inList operand candidates =>
      rw [mapColumns, children, children, mapColumnsOfList_eq_map, List.map_cons]
  | _ => rfl

theorem callsAll_mapColumns (f : String → String) (h : e.CallsAll p) :
    (e.mapColumns f).CallsAll p := by
  induction e using Expr.induct with
  | step e ih =>
    refine callsAll_of_children ?_ ?_
    · intro function args window heq
      cases e with
      | call g others window' =>
          rw [mapColumns, mapColumnsOfArgs_eq_map] at heq
          cases heq
          rw [List.length_map]
          exact callsAll_call h
      | conditional condition value otherwise => cases otherwise <;> cases heq
      | _ => cases heq
    · rw [children_mapColumns, List.forall_mem_map]
      exact fun child hchild => ih child hchild (callsAll_of_child h hchild)

end Expr

/-! ## Extraction -/

namespace Extraction

variable {α β : Type} {I : ExtractedCall → Prop} {P : α → Prop} {Q : β → Prop}

/-- What is taken out satisfies `I` if what was taken out before does, and what is left satisfies
`P`. -/
def Keeps (I : ExtractedCall → Prop) (m : StateM Extraction α) (P : α → Prop) : Prop :=
  ∀ x, (∀ y ∈ x.calls, I y) → (∀ y ∈ (m.run x).2.calls, I y) ∧ P (m.run x).1

theorem Keeps.pure {a : α} (h : P a) : Keeps I (pure a) P := fun _ hx => ⟨hx, h⟩

theorem Keeps.bind {m : StateM Extraction α} {f : α → StateM Extraction β} (hm : Keeps I m P)
    (hf : ∀ a, P a → Keeps I (f a) Q) : Keeps I (m >>= f) Q := by
  intro x hx
  obtain ⟨hcalls, ha⟩ := hm x hx
  exact hf _ ha _ hcalls

end Extraction

namespace Expr

open Extraction

variable {p : String → Nat → Prop} {w : String → Nat → Bool → Bool}

theorem keeps_extractArgs {I : ExtractedCall → Prop} {args : List (Arg Expr)}
    (h : ∀ arg ∈ args, Keeps I (arg.value.extract w) (CallsAll p)) :
    Keeps I (extractArgs w args) fun rest =>
      rest.length = args.length ∧ ∀ arg ∈ rest, arg.value.CallsAll p := by
  induction args with
  | nil => exact .pure ⟨rfl, nofun⟩
  | cons arg args ih =>
      obtain ⟨harg, hargs⟩ := List.forall_mem_cons.1 h
      refine harg.bind fun e he => (ih hargs).bind fun rest hrest => .pure ⟨?_, ?_⟩
      · rw [List.length_cons, List.length_cons, hrest.1]
      · exact List.forall_mem_cons.2 ⟨he, hrest.2⟩

theorem keeps_extractList {I : ExtractedCall → Prop} {es : List Expr}
    (h : ∀ e ∈ es, Keeps I (e.extract w) (CallsAll p)) :
    Keeps I (extractList w es) fun rest => ∀ e ∈ rest, e.CallsAll p := by
  induction es with
  | nil => exact .pure nofun
  | cons e es ih =>
      obtain ⟨he, hes⟩ := List.forall_mem_cons.1 h
      exact he.bind fun e he => (ih hes).bind fun rest hrest =>
        .pure (List.forall_mem_cons.2 ⟨he, hrest⟩)

/-- Neither what is taken out nor what is left has calls that were not there before. -/
theorem keeps_extract {e : Expr} (h : e.CallsAll p) :
    Keeps (fun y => y.call.CallsAll p) (e.extract w) (CallsAll p) := by
  induction e using Expr.induct with
  | step e ih =>
    have ih := fun child hchild => ih child hchild (callsAll_of_child h hchild)
    cases e with
    | column name => exact .pure h
    | literal value => exact .pure h
    | call function args window =>
        rw [extract]
        split
        · refine fun x hx => ⟨?_, callsAll_column _⟩
          exact List.forall_mem_append.2 ⟨hx, List.forall_mem_singleton.2 h⟩
        · refine (keeps_extractArgs fun arg harg => ih _ (List.mem_map_of_mem harg)).bind ?_
          rintro rest ⟨hlength, hrest⟩
          refine .pure (callsAll_of_children ?_ (List.forall_mem_map.2 hrest))
          rintro _ _ _ ⟨⟩
          exact hlength ▸ callsAll_call h
    | conditional condition value otherwise =>
        have hcondition := ih condition (by simp [children])
        have hvalue := ih value (by simp [children])
        cases otherwise with
        | none =>
            refine hcondition.bind fun _ h₁ => hvalue.bind fun _ h₂ => .pure ?_
            exact callsAll_of_children (by simp) (by simp [children, h₁, h₂])
        | some otherwise =>
            refine hcondition.bind fun _ h₁ => hvalue.bind fun _ h₂ => ?_
            refine (ih otherwise (by simp [children])).bind fun _ h₃ => .pure ?_
            exact callsAll_of_children (by simp) (by simp [children, h₁, h₂, h₃])
    | inList operand candidates =>
        refine (ih operand (by simp [children])).bind fun _ h₁ => ?_
        refine (keeps_extractList fun e he => ih e (List.mem_cons_of_mem _ he)).bind fun _ h₂ => ?_
        exact .pure (callsAll_of_children (by simp) (List.forall_mem_cons.2 ⟨h₁, h₂⟩))
    | inExpr left right | binary op left right =>
        refine (ih left (by simp [children])).bind fun _ h₁ => ?_
        refine (ih right (by simp [children])).bind fun _ h₂ => .pure ?_
        exact callsAll_of_children (by simp) (by simp [children, h₁, h₂])
    | unary op operand =>
        refine (ih operand (by simp [children])).bind fun _ h₁ => .pure ?_
        exact callsAll_of_children (by simp) (by simp [children, h₁])

end Expr

end SqlChain
