import SqlChain.Proofs.Branches

/-!
# Two runs side by side

Two computations are in step if they make the same remarks and come to related results, or fail in
the same way. Where the first one is stopped by certain errors, the second one may go on. There is a
rule for every way in which computations are put together.
-/

namespace SqlChain

variable {α β γ δ : Type}

/-- The same error, but for the expression that it quotes where a literal was expected. -/
inductive Error.Like : Error → Error → Prop
  | refl (e : Error) : Like e e
  | notIntegerLiteral (function : String) (given other : Expr) :
      Like (.invalidArgument function (.notIntegerLiteral given))
        (.invalidArgument function (.notIntegerLiteral other))

/-- Errors that are alike, or values that are related. -/
inductive LikeOutcome (R : α → β → Prop) : Except Error α → Except Error β → Prop
  | error {e other : Error} (h : e.Like other) : LikeOutcome R (.error e) (.error other)
  | ok {a : α} {b : β} (h : R a b) : LikeOutcome R (.ok a) (.ok b)

theorem SameOutcome.like {R : α → β → Prop} {r : Except Error α} {t : Except Error β}
    (h : SameOutcome R r t) : LikeOutcome R r t := by
  cases h with
  | error e => exact .error (.refl e)
  | ok h => exact .ok h

namespace CompileM

/-- How two computations end that were in step: alike, or the first one at an error by which it is
stopped. -/
inductive Ends (Stop : Error → Prop) (R : α → β → Prop) :
    Except Error α × List Warning → Except Error β × List Warning → Prop
  | both {r : Except Error α} {t : Except Error β} (h : LikeOutcome R r t)
      (warnings : List Warning) : Ends Stop R (r, warnings) (t, warnings)
  | stopped {e : Error} (h : Stop e) (warnings : List Warning)
      (other : Except Error β × List Warning) : Ends Stop R (.error e, warnings) other

/-- Whatever was remarked before, the computations end alike unless the first one is stopped. -/
def InStep (Stop : Error → Prop) (R : α → β → Prop) (m : CompileM α) (n : CompileM β) : Prop :=
  ∀ warnings, Ends Stop R (m.run.run warnings) (n.run.run warnings)

namespace InStep

variable {Stop : Error → Prop} {R : α → β → Prop} {Q : γ → δ → Prop} {m : CompileM α}
  {n : CompileM β}

theorem refl (m : CompileM α) : InStep Stop Eq m m := by
  intro warnings
  generalize m.run.run warnings = answer
  obtain ⟨answer, later⟩ := answer
  cases answer with
  | error e => exact .both (.error (.refl e)) later
  | ok a => exact .both (.ok rfl) later

theorem pure {a : α} {b : β} (h : R a b) : InStep Stop R (pure a) (pure b) :=
  fun warnings => .both (.ok h) warnings

theorem throw_of_stop {e : Error} (h : Stop e) (n : CompileM β) : InStep Stop R (throw e) n :=
  fun warnings => .stopped h warnings _

theorem throw (e : Error) : InStep Stop R (throw e) (throw e) :=
  fun warnings => .both (.error (.refl e)) warnings

theorem attempt {r : Except Error α} {t : Except Error β} (h : LikeOutcome R r t) :
    InStep Stop R (attempt r) (attempt t) :=
  fun warnings => .both h warnings

theorem bind {f : α → CompileM γ} {g : β → CompileM δ} (h : InStep Stop R m n)
    (hfg : ∀ a b, R a b → InStep Stop Q (f a) (g b)) : InStep Stop Q (m >>= f) (n >>= g) := by
  intro warnings
  have hends := h warnings
  rw [run_bind, run_bind]
  generalize m.run.run warnings = answer at hends
  generalize n.run.run warnings = other at hends
  cases hends with
  | both h later =>
      cases h with
      | error h => exact .both (.error h) later
      | ok hab => exact hfg _ _ hab later
  | stopped h later other => exact .stopped h later _

theorem mapM {f : α → CompileM γ} {g : β → CompileM γ} {as : List α} {bs : List β}
    (h : List.Forall₂ (fun a b => InStep Stop Eq (f a) (g b)) as bs) :
    InStep Stop Eq (as.mapM f) (bs.mapM g) := by
  induction h with
  | nil => exact .pure rfl
  | cons hab _ ih =>
      rw [List.mapM_cons, List.mapM_cons]
      refine hab.bind fun x _ hx => ih.bind fun xs _ hxs => ?_
      subst hx hxs
      exact .pure rfl

/-- What comes after computations with equal results may be compared for each result alone. -/
theorem bind_eq {m n : CompileM α} {f : α → CompileM γ} {g : α → CompileM δ}
    (h : InStep Stop Eq m n) (hfg : ∀ a, InStep Stop Q (f a) (g a)) :
    InStep Stop Q (m >>= f) (n >>= g) :=
  h.bind fun a _ hab => hab ▸ hfg a

end InStep

end CompileM

end SqlChain
