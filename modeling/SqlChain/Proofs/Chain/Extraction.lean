import Mathlib.Data.List.Nodup
import SqlChain.Expr.Columns
import SqlChain.Expr.Extraction
import SqlChain.Proofs.Digits

/-!
# What extraction takes out

The calls that are taken out of an expression get the next temporary names in turn. The expression
that is left refers to no columns but those it had and those that stand for the calls.
-/

namespace SqlChain

/-! ## Names -/

theorem temporaryName_injective : Function.Injective temporaryName := by
  intro m n h
  have hpadded : Text.padded 2 m = Text.padded 2 n := by simpa [temporaryName] using h
  rw [← Text.ofDigitChars_padded 2 m, hpadded, Text.ofDigitChars_padded]

/-- Among things of different names the name of one finds this one. -/
theorem find?_key_eq {α : Type} (key : α → String) {xs : List α} (hnodup : (xs.map key).Nodup)
    {x : α} (h : x ∈ xs) : xs.find? (key · == key x) = some x := by
  induction xs with
  | nil => cases h
  | cons first rest ih =>
      obtain ⟨hfirst, hrest⟩ := List.nodup_cons.1 hnodup
      rw [List.find?_cons]
      rcases List.mem_cons.1 h with rfl | h
      · simp
      · have hne : key first ≠ key x := by
          intro heq
          exact hfirst (List.mem_map.2 ⟨x, h, heq.symm⟩)
        rw [beq_false_of_ne hne]
        exact ih hrest h

/-! ## Calls -/

namespace Extraction

/-- How an extraction goes on while `columns` are replaced by `rest`. -/
def Takes (p : String → Nat → Bool → Bool) (before after : Extraction)
    (columns rest : List String) : Prop :=
  ∃ calls : List ExtractedCall,
    after = { issued := before.issued + calls.length, calls := before.calls ++ calls } ∧
    calls.map (·.temporary) =
      (List.range' (before.issued + 1) calls.length).map temporaryName ∧
    (∀ x ∈ calls, p x.function x.args.length x.window = true ∧ ∀ n ∈ x.call.columns, n ∈ columns) ∧
    ∀ n ∈ rest, n ∈ columns ∨ n ∈ calls.map (·.temporary)

variable {p : String → Nat → Bool → Bool}

theorem Takes.refl (x : Extraction) (columns : List String) : Takes p x x columns columns :=
  ⟨[], by simp, by simp, by simp, fun _ hn => .inl hn⟩

theorem Takes.append {x y z : Extraction} {columns rest others left : List String}
    (h : Takes p x y columns rest) (hnext : Takes p y z others left) :
    Takes p x z (columns ++ others) (rest ++ left) := by
  obtain ⟨calls, rfl, hnames, hcalls, hrest⟩ := h
  obtain ⟨more, rfl, hmoreNames, hmore, hleft⟩ := hnext
  refine ⟨calls ++ more, by simp [Nat.add_assoc], ?_, ?_, ?_⟩
  · rw [List.map_append, hnames, hmoreNames, ← List.map_append, List.length_append,
      Nat.add_right_comm, List.range'_append_1]
  · intro c hc
    rcases List.mem_append.1 hc with hc | hc
    · exact ⟨(hcalls c hc).1, fun n hn => List.mem_append_left _ ((hcalls c hc).2 n hn)⟩
    · exact ⟨(hmore c hc).1, fun n hn => List.mem_append_right _ ((hmore c hc).2 n hn)⟩
  · intro n hn
    rw [List.map_append, List.mem_append, List.mem_append]
    rcases List.mem_append.1 hn with hn | hn
    · exact (hrest n hn).imp .inl .inl
    · exact (hleft n hn).imp .inr .inr

theorem takes_take (function : String) (args : List (Arg Expr)) (window : Bool)
    (hp : p function args.length window = true) (x : Extraction) :
    Takes p x (take function args window x).2 (Expr.columnsOfArgs args)
      (take function args window x).1.columns := by
  refine ⟨[{ temporary := temporaryName (x.issued + 1), function, args, window }], rfl, rfl, ?_, ?_⟩
  · intro c hc
    cases List.mem_singleton.1 hc
    exact ⟨hp, fun n hn => hn⟩
  · exact fun n hn => .inr hn

end Extraction

namespace Expr

open Extraction

variable (p : String → Nat → Bool → Bool)

mutual

theorem takes_extract : ∀ (e : Expr) (x : Extraction),
    Takes p x ((e.extract p).run x).2 e.columns ((e.extract p).run x).1.columns
  | .column name, x => Takes.refl x _
  | .literal value, x => Takes.refl x _
  | .call function args window, x => by
    rw [extract]
    split
    · next hp => exact takes_take function args window hp x
    · exact takes_extractArgs args x
  | .conditional condition value none, x => by
    have hcondition := takes_extract condition x
    have hvalue := takes_extract value ((condition.extract p).run x).2
    exact hcondition.append hvalue
  | .conditional condition value (some otherwise), x => by
    have hcondition := takes_extract condition x
    have hvalue := takes_extract value ((condition.extract p).run x).2
    have hotherwise := takes_extract otherwise
      ((value.extract p).run ((condition.extract p).run x).2).2
    exact (hcondition.append hvalue).append hotherwise
  | .inList expr candidates, x => by
    have hexpr := takes_extract expr x
    have hcandidates := takes_extractList candidates ((expr.extract p).run x).2
    exact hexpr.append hcandidates
  | .inExpr left right, x | .binary _ left right, x => by
    have hleft := takes_extract left x
    have hright := takes_extract right ((left.extract p).run x).2
    exact hleft.append hright
  | .unary _ operand, x => takes_extract operand x

theorem takes_extractArgs : ∀ (args : List (Arg Expr)) (x : Extraction),
    Takes p x ((extractArgs p args).run x).2 (columnsOfArgs args)
      (columnsOfArgs ((extractArgs p args).run x).1)
  | [], x => Takes.refl x _
  | ⟨_, e⟩ :: rest, x => by
    have he := takes_extract e x
    have hrest := takes_extractArgs rest ((e.extract p).run x).2
    exact he.append hrest

theorem takes_extractList : ∀ (es : List Expr) (x : Extraction),
    Takes p x ((extractList p es).run x).2 (columnsOfList es)
      (columnsOfList ((extractList p es).run x).1)
  | [], x => Takes.refl x _
  | e :: rest, x => by
    have he := takes_extract e x
    have hrest := takes_extractList rest ((e.extract p).run x).2
    exact he.append hrest

end

theorem length_extractArgs (args : List (Arg Expr)) (x : Extraction) :
    ((extractArgs p args).run x).1.length = args.length := by
  induction args generalizing x with
  | nil => rfl
  | cons arg rest ih => exact congrArg (· + 1) (ih _)

/-- The calls of an expression get different names, all of which are temporary. -/
theorem temporaries_extract (e : Expr) (issued : Nat) :
    let calls := ((e.extract p).run { issued, calls := [] }).2.calls
    (calls.map (·.temporary)).Nodup ∧ ∀ x ∈ calls, ∃ n, x.temporary = temporaryName n := by
  obtain ⟨calls, hafter, hnames, -, -⟩ := takes_extract p e { issued, calls := [] }
  rw [hafter, List.nil_append]
  refine ⟨?_, fun x hx => ?_⟩
  · rw [hnames]
    exact List.Nodup.map temporaryName_injective (List.nodup_range' 1)
  · have hname : x.temporary ∈ calls.map (·.temporary) := List.mem_map_of_mem hx
    rw [hnames] at hname
    obtain ⟨n, _, hn⟩ := List.mem_map.1 hname
    exact ⟨n, hn.symm⟩

end Expr

end SqlChain
