import SqlChain.Proofs.Lenient.Expression

/-!
# What an extraction leaves

Which calls are taken out of an expression does not depend on the names that they get. What is left
can be filled with them again, and it is the same for other names but for its columns.
-/

namespace SqlChain

namespace Extraction

/-- Whatever was taken out before, these expressions are taken out. What is left is related to the
original if they may be put back, and to what is left from any other start. -/
structure Leaves {α : Type} (m : StateM Extraction α) (es : List Expr)
    (Original : (Expr → Prop) → α → Prop) (Same : α → α → Prop) : Prop where
  calls : ∀ x, (m.run x).2.calls.map ExtractedCall.call = x.calls.map ExtractedCall.call ++ es
  original : ∀ taken : Expr → Prop, (∀ e ∈ es, taken e) → ∀ x, Original taken (m.run x).1
  same : ∀ x y, Same (m.run x).1 (m.run y).1

variable {α β γ : Type} {P : (Expr → Prop) → α → Prop} {Q : (Expr → Prop) → β → Prop}
  {R : (Expr → Prop) → γ → Prop} {S : α → α → Prop} {T : β → β → Prop} {U : γ → γ → Prop}

theorem Leaves.pure {a : α} (h : ∀ taken, P taken a) (hsame : S a a) :
    Leaves (pure a : StateM Extraction α) [] P S :=
  ⟨fun _ => (List.append_nil _).symm, fun taken _ _ => h taken, fun _ _ => hsame⟩

theorem Leaves.map {m : StateM Extraction α} {es : List Expr} (hm : Leaves m es P S) {f : α → β}
    (h : ∀ taken a, P taken a → Q taken (f a)) (hsame : ∀ a b, S a b → T (f a) (f b)) :
    Leaves (do return f (← m)) es Q T :=
  ⟨hm.calls, fun taken htaken x => h taken _ (hm.original taken htaken x),
    fun x y => hsame _ _ (hm.same x y)⟩

theorem Leaves.map₂ {m : StateM Extraction α} {n : StateM Extraction β} {es others : List Expr}
    (hm : Leaves m es P S) (hn : Leaves n others Q T) {f : α → β → γ}
    (h : ∀ taken a b, P taken a → Q taken b → R taken (f a b))
    (hsame : ∀ a b a' b', S a a' → T b b' → U (f a b) (f a' b')) :
    Leaves (do return f (← m) (← n)) (es ++ others) R U := by
  refine ⟨fun x => ?_, fun taken htaken x => ?_, fun x y => ?_⟩
  · rw [← List.append_assoc, ← hm.calls x]
    exact hn.calls (m.run x).2
  · rw [List.forall_mem_append] at htaken
    exact h taken _ _ (hm.original taken htaken.1 x) (hn.original taken htaken.2 _)
  · exact hsame _ _ _ _ (hm.same x y) (hn.same _ _)

end Extraction

namespace Expr

open Extraction

variable (p : String → Nat → Bool → Bool)

mutual

theorem leaves_extract : ∀ e : Expr, ∃ es, Leaves (e.extract p) es
    (fun taken rest => FillsRest p taken rest e) Resembles
  | .column name => ⟨[], .pure (fun _ => .column name name) (.column name name)⟩
  | .literal value => ⟨[], .pure (fun _ => .literal value) (.literal value)⟩
  | .call function args window => by
    rw [extract]
    split
    · refine ⟨[.call function args window], fun x => ?_, fun taken htaken x => ?_, fun x y => ?_⟩
      · exact List.map_append
      · exact .taken _ (htaken _ (by simp))
      · exact .column _ _
    · next hp =>
        obtain ⟨es, hargs⟩ := leaves_extractArgs args
        refine ⟨es, hargs.map (fun taken rest hrest => ?_) fun rest other hsame => ?_⟩
        · have hlength : rest.length = args.length := by simpa using congrArg List.length hrest.1
          exact .call function window (by simpa [hlength] using hp) hrest.1 hrest.2
        · exact .call function window True.intro hsame.1 hsame.2
  | .conditional condition value none => by
    obtain ⟨es, hcondition⟩ := leaves_extract condition
    obtain ⟨others, hvalue⟩ := leaves_extract value
    exact ⟨_, hcondition.map₂ hvalue (fun _ _ _ h h' => .conditional h h' .none)
      fun _ _ _ _ h h' => .conditional h h' .none⟩
  | .conditional condition value (some otherwise) => by
    obtain ⟨es, hcondition⟩ := leaves_extract condition
    obtain ⟨others, hvalue⟩ := leaves_extract value
    obtain ⟨last, hotherwise⟩ := leaves_extract otherwise
    have hvalues := hvalue.map₂ hotherwise (f := Prod.mk)
      (R := fun taken x => FillsRest p taken x.1 value ∧ FillsRest p taken x.2 otherwise)
      (U := fun x y => Resembles x.1 y.1 ∧ Resembles x.2 y.2)
      (fun _ _ _ => .intro) fun _ _ _ _ => .intro
    exact ⟨_, hcondition.map₂ hvalues
      (f := fun condition values => conditional condition values.1 (some values.2))
      (fun _ _ _ h h' => .conditional h h'.1 (.some h'.2))
      fun _ _ _ _ h h' => .conditional h h'.1 (.some h'.2)⟩
  | .inList expr candidates => by
    obtain ⟨es, hexpr⟩ := leaves_extract expr
    obtain ⟨others, hcandidates⟩ := leaves_extractList candidates
    exact ⟨_, hexpr.map₂ hcandidates (fun _ _ _ => .inList) fun _ _ _ _ => .inList⟩
  | .inExpr expr candidates => by
    obtain ⟨es, hexpr⟩ := leaves_extract expr
    obtain ⟨others, hcandidates⟩ := leaves_extract candidates
    exact ⟨_, hexpr.map₂ hcandidates (fun _ _ _ => .inExpr) fun _ _ _ _ => .inExpr⟩
  | .binary op left right => by
    obtain ⟨es, hleft⟩ := leaves_extract left
    obtain ⟨others, hright⟩ := leaves_extract right
    exact ⟨_, hleft.map₂ hright (fun _ _ _ => .binary op) fun _ _ _ _ => .binary op⟩
  | .unary op operand => by
    obtain ⟨es, hoperand⟩ := leaves_extract operand
    exact ⟨es, hoperand.map (fun _ _ => .unary op) fun _ _ => .unary op⟩

theorem leaves_extractArgs : ∀ args : List (Arg Expr), ∃ es, Leaves (extractArgs p args) es
    (fun taken rest => rest.map Arg.name = args.map Arg.name ∧
      List.Forall₂ (FillsRest p taken) (rest.map Arg.value) (args.map Arg.value))
    fun rest others => rest.map Arg.name = others.map Arg.name ∧
      List.Forall₂ Resembles (rest.map Arg.value) (others.map Arg.value)
  | [] => ⟨[], .pure (fun _ => ⟨rfl, .nil⟩) ⟨rfl, .nil⟩⟩
  | ⟨name, e⟩ :: rest => by
    obtain ⟨es, he⟩ := leaves_extract e
    obtain ⟨others, hrest⟩ := leaves_extractArgs rest
    exact ⟨_, he.map₂ hrest (f := fun e rest => (⟨name, e⟩ : Arg Expr) :: rest)
      (fun _ _ _ h h' => ⟨congrArg (name :: ·) h'.1, .cons h h'.2⟩)
      fun _ _ _ _ h h' => ⟨congrArg (name :: ·) h'.1, .cons h h'.2⟩⟩

theorem leaves_extractList : ∀ es : List Expr, ∃ taken, Leaves (extractList p es) taken
    (fun taken rest => List.Forall₂ (FillsRest p taken) rest es)
    (List.Forall₂ Resembles)
  | [] => ⟨[], .pure (fun _ => .nil) .nil⟩
  | e :: rest => by
    obtain ⟨es, he⟩ := leaves_extract e
    obtain ⟨others, hrest⟩ := leaves_extractList rest
    exact ⟨_, he.map₂ hrest (fun _ _ _ => .cons) fun _ _ _ _ => .cons⟩

end

end Expr

end SqlChain
