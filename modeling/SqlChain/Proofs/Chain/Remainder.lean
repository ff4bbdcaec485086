import SqlChain.Proofs.Chain.Extraction
import SqlChain.Query.Window

/-!
# Calls that are taken out and what remains

An extraction takes calls out of an expression that are found in it, and all that are over a
window. None of these is found in what remains.
-/

namespace SqlChain

namespace Extraction

/-- Calls are taken out only where they are found, `found` saying whether there is something with a
property, and what remains is as it should be. -/
structure Divides {α : Type} (m : StateM Extraction α) (found : (Expr → Bool) → Bool)
    (Remains : α → Prop) : Prop where
  taken : ∀ x, ∃ taken, (m.run x).2.calls = x.calls ++ taken ∧
    ∀ y ∈ taken, ∀ q, y.call.any q = true → found q = true
  remains : ∀ x, Remains (m.run x).1

namespace Divides

variable {α β γ : Type} {m : StateM Extraction α} {n : StateM Extraction β}
  {found other both : (Expr → Bool) → Bool} {P : α → Prop} {Q : β → Prop} {R : γ → Prop}

theorem pure {a : α} (h : P a) : Divides (pure a : StateM Extraction α) found P :=
  ⟨fun _ => ⟨[], (List.append_nil _).symm, by simp⟩, fun _ => h⟩

theorem map {f : α → β} (hm : Divides m found P) (hfound : ∀ q, found q = true → both q = true)
    (h : ∀ a, P a → Q (f a)) : Divides (do return f (← m)) both Q := by
  refine ⟨fun x => ?_, fun x => h _ (hm.remains x)⟩
  obtain ⟨taken, htaken, hcalls⟩ := hm.taken x
  exact ⟨taken, htaken, fun y hy q hq => hfound q (hcalls y hy q hq)⟩

theorem map₂ {f : α → β → γ} (hm : Divides m found P) (hn : Divides n other Q)
    (hfound : ∀ q, found q = true → both q = true) (hother : ∀ q, other q = true → both q = true)
    (h : ∀ a b, P a → Q b → R (f a b)) : Divides (do return f (← m) (← n)) both R := by
  refine ⟨fun x => ?_, fun x => h _ _ (hm.remains x) (hn.remains _)⟩
  obtain ⟨taken, htaken, hcalls⟩ := hm.taken x
  obtain ⟨more, hmore, hmoreCalls⟩ := hn.taken (m.run x).2
  refine ⟨taken ++ more, ?_, List.forall_mem_append.2 ⟨?_, ?_⟩⟩
  · rw [← List.append_assoc, ← htaken]
    exact hmore
  · exact fun y hy q hq => hfound q (hcalls y hy q hq)
  · exact fun y hy q hq => hother q (hmoreCalls y hy q hq)

end Divides

end Extraction

namespace Compiler

open Extraction

variable (c : Compiler)

mutual

theorem divides_extract : ∀ e : Expr, Divides (e.extract c.isWindowCall) (e.any ·) fun rest =>
    c.needsWindow rest = false
  | .column _ | .literal _ => .pure rfl
  | .call function args window => by
    rw [Expr.extract]
    split
    · refine ⟨fun x => ⟨_, rfl, fun y hy q hq => ?_⟩, fun _ => rfl⟩
      cases List.mem_singleton.1 hy
      exact hq
    · next hcall =>
        have hargs := divides_extractArgs args
        refine ⟨fun x => ?_, fun x => ?_⟩
        · obtain ⟨taken, htaken, hcalls⟩ := hargs.taken x
          exact ⟨taken, htaken, fun y hy q hq => by simp [Expr.any, hcalls y hy q hq]⟩
        · have hlength := Expr.length_extractArgs c.isWindowCall args x
          have hrest := hargs.remains x
          change c.needsWindow (.call function ((Expr.extractArgs c.isWindowCall args).run x).1
            window) = false
          simp [needsWindow, Expr.any, isWindowExpr, hlength, hcall, hrest]
  | .conditional condition value none => by
    refine (divides_extract condition).map₂ (divides_extract value) ?_ ?_ ?_
    · intro q hq
      simp [Expr.any, hq]
    · intro q hq
      simp [Expr.any, hq]
    · intro a b ha hb
      simp only [needsWindow] at ha hb
      simp [needsWindow, Expr.any, isWindowExpr, ha, hb]
  | .conditional condition value (some otherwise) => by
    have hvalues : Divides
        (do return (← value.extract c.isWindowCall, ← otherwise.extract c.isWindowCall))
        (fun q => value.any q || otherwise.any q)
        fun r => c.needsWindow r.1 = false ∧ c.needsWindow r.2 = false :=
      (divides_extract value).map₂ (divides_extract otherwise) (fun q hq => by simp [hq])
        (fun q hq => by simp [hq]) fun _ _ => .intro
    refine (divides_extract condition).map₂ hvalues
      (f := fun condition values => Expr.conditional condition values.1 (some values.2)) ?_ ?_ ?_
    · intro q hq
      simp [Expr.any, hq]
    · intro q hq
      rcases Bool.or_eq_true_iff.1 hq with hq | hq <;> simp [Expr.any, hq]
    · rintro a ⟨b, d⟩ ha ⟨hb, hd⟩
      simp only [needsWindow] at ha hb hd
      simp [needsWindow, Expr.any, isWindowExpr, ha, hb, hd]
  | .inList expr candidates => by
    refine (divides_extract expr).map₂ (divides_extractList candidates) ?_ ?_ ?_
    · intro q hq
      simp [Expr.any, hq]
    · intro q hq
      simp [Expr.any, hq]
    · intro a b ha hb
      simp only [needsWindow] at ha
      simp [needsWindow, Expr.any, isWindowExpr, ha, hb]
  | .inExpr left right | .binary _ left right => by
    refine (divides_extract left).map₂ (divides_extract right) ?_ ?_ ?_
    · intro q hq
      simp [Expr.any, hq]
    · intro q hq
      simp [Expr.any, hq]
    · intro a b ha hb
      simp only [needsWindow] at ha hb
      simp [needsWindow, Expr.any, isWindowExpr, ha, hb]
  | .unary _ operand => by
    refine (divides_extract operand).map ?_ ?_
    · intro q hq
      simp [Expr.any, hq]
    · intro a ha
      simp only [needsWindow] at ha
      simp [needsWindow, Expr.any, isWindowExpr, ha]

theorem divides_extractArgs : ∀ args : List (Arg Expr),
    Divides (Expr.extractArgs c.isWindowCall args) (Expr.anyArg · args) fun rest =>
      Expr.anyArg c.isWindowExpr rest = false
  | [] => .pure rfl
  | ⟨name, e⟩ :: rest => by
    refine (divides_extract e).map₂ (divides_extractArgs rest)
      (f := fun e rest => (⟨name, e⟩ : Arg Expr) :: rest) ?_ ?_ ?_
    · intro q hq
      simp [Expr.anyArg, hq]
    · intro q hq
      simp [Expr.anyArg, hq]
    · intro a b ha hb
      simp only [needsWindow] at ha
      simp [Expr.anyArg, ha, hb]

theorem divides_extractList : ∀ es : List Expr,
    Divides (Expr.extractList c.isWindowCall es) (Expr.anyOf · es) fun rest =>
      Expr.anyOf c.isWindowExpr rest = false
  | [] => .pure rfl
  | e :: rest => by
    refine (divides_extract e).map₂ (divides_extractList rest) ?_ ?_ ?_
    · intro q hq
      simp [Expr.anyOf, hq]
    · intro q hq
      simp [Expr.anyOf, hq]
    · intro a b ha hb
      simp only [needsWindow] at ha
      simp [Expr.anyOf, ha, hb]

end

end Compiler

end SqlChain
