import SqlChain.Proofs.Building

/-!
# What computations fail with

A computation meets a specification if all values that it can return have a property and all errors
that it can fail with are of a kind. The rules are those of `Ensures`, with the errors beside the
values.
-/

namespace SqlChain

variable {α β : Type} {E : Error → Prop}

/-- All errors of a result are of a kind. -/
def FailsWith (E : Error → Prop) (r : Except Error α) : Prop := ∀ e, r = .error e → E e

namespace FailsWith

theorem ok (a : α) : FailsWith E (.ok a) := by
  rintro _ ⟨⟩

theorem error {e : Error} (he : E e) : FailsWith E (.error e : Except Error α) := by
  rintro _ ⟨⟩
  exact he

theorem bind {r : Except Error α} {f : α → Except Error β} (hr : FailsWith E r)
    (hf : ∀ a, FailsWith E (f a)) : FailsWith E (r >>= f) := by
  cases r with
  | error e => exact .error (hr e rfl)
  | ok a => exact hf a

theorem mapM {f : α → Except Error β} {as : List α} (h : ∀ a, FailsWith E (f a)) :
    FailsWith E (as.mapM f) := by
  induction as with
  | nil => exact .ok []
  | cons a rest ih =>
      rw [List.mapM_cons]
      exact (h a).bind fun _ => ih.bind fun _ => .ok _

end FailsWith

namespace CompileM

structure Meets (m : CompileM α) (P : α → Prop) (E : Error → Prop) : Prop where
  ensures : m.Ensures P
  fails : ∀ warnings e later, m.run.run warnings = (.error e, later) → E e

namespace Meets

variable {P : α → Prop} {Q : β → Prop}

theorem imp {m : CompileM α} {R : α → Prop} (h : m.Meets P E) (hpr : ∀ a, P a → R a) :
    m.Meets R E :=
  ⟨h.ensures.imp hpr, h.fails⟩

theorem pure {a : α} (h : P a) : Meets (pure a) P E := by
  refine ⟨.pure h, ?_⟩
  rintro warnings e later ⟨⟩

theorem throw {e : Error} (he : E e) : Meets (throw e) P E := by
  refine ⟨.throw e, ?_⟩
  rintro warnings e later ⟨⟩
  exact he

theorem attempt {r : Except Error α} (h : ∀ a, r = .ok a → P a) (hr : FailsWith E r) :
    Meets (attempt r) P E := by
  refine ⟨.attempt h, ?_⟩
  rintro warnings e later ⟨⟩
  exact hr e rfl

theorem bind {m : CompileM α} {f : α → CompileM β} (hm : m.Meets P E)
    (hf : ∀ a, P a → (f a).Meets Q E) : Meets (m >>= f) Q E := by
  refine ⟨hm.ensures.bind fun a ha => (hf a ha).ensures, ?_⟩
  intro warnings e later hrun
  rw [run_bind] at hrun
  rcases hfirst : m.run.run warnings with ⟨answer, between⟩
  rw [hfirst] at hrun
  cases answer with
  | error e' =>
      cases hrun
      exact hm.fails warnings e between hfirst
  | ok a => exact (hf a (hm.ensures warnings a between hfirst)).fails between e later hrun

theorem mapM {f : α → CompileM β} {R : α → β → Prop} {as : List α}
    (h : ∀ a ∈ as, (f a).Meets (R a) E) : Meets (as.mapM f) (List.Forall₂ R as) E := by
  induction as with
  | nil => exact .pure .nil
  | cons a as ih =>
      rw [List.mapM_cons]
      refine (h a (by simp)).bind fun b hb => ?_
      refine (ih fun x hx => h x (List.mem_cons_of_mem _ hx)).bind fun bs hbs => ?_
      exact .pure (.cons hb hbs)

/-- What the values that are returned for the members of a list say of the members. -/
theorem mapM_of {f : α → CompileM β} {R : α → Prop} {as : List α}
    (h : ∀ a ∈ as, (f a).Meets (fun _ => R a) E) :
    Meets (as.mapM f) (fun _ => ∀ a ∈ as, R a) E := by
  refine (mapM h).imp fun bs hbs => ?_
  induction hbs with
  | nil => simp
  | cons ha _ ih =>
      exact List.forall_mem_cons.2 ⟨ha, ih fun a hmem => h a (List.mem_cons_of_mem _ hmem)⟩

end Meets

end CompileM

namespace BuildM

def Fails (m : BuildM α) (E : Error → Prop) : Prop := ∀ p e, m.run p = .error e → E e

namespace Fails

variable {P : α → Prop}

theorem pure (a : α) : Fails (pure a) E := by
  rintro p e ⟨⟩

theorem throw {e : Error} (he : E e) : Fails (throw e : BuildM α) E := by
  rintro p _ ⟨⟩
  exact he

theorem lift {r : Except Error α} (hr : FailsWith E r) : Fails (liftM r : BuildM α) E := by
  intro p e hrun
  cases r with
  | error e' =>
      cases hrun
      exact hr e rfl
  | ok a => cases hrun

theorem modifyGet (f : Progress → α × Progress) : Fails (modifyGet f : BuildM α) E := by
  rintro p e ⟨⟩

theorem compiling {m : CompileM α} (hm : m.Meets P E) : Fails (compiling m) E := by
  intro p e hrun
  rcases hfirst : m.run.run p.compiled with ⟨answer, later⟩
  rw [run_compiling, hfirst] at hrun
  cases answer with
  | ok a => cases hrun
  | error e' =>
      cases hrun
      exact hm.fails p.compiled e later hfirst

/-- What comes after a computation only has to fail well for what this returns. -/
theorem bind_of {m : BuildM α} {f : α → BuildM β} (hm : m.Fails E) (hp : m.Ensures P)
    (hf : ∀ a, P a → (f a).Fails E) : Fails (m >>= f) E := by
  intro p e hrun
  rw [StateT.run_bind] at hrun
  cases hfirst : m.run p with
  | error e' =>
      rw [hfirst] at hrun
      cases hrun
      exact hm p e hfirst
  | ok answer =>
      rw [hfirst] at hrun
      exact hf answer.1 (hp p answer.1 answer.2 hfirst) answer.2 e hrun

theorem bind {m : BuildM α} {f : α → BuildM β} (hm : m.Fails E) (hf : ∀ a, (f a).Fails E) :
    Fails (m >>= f) E :=
  hm.bind_of (.trivial m) fun a _ => hf a

theorem mapM {f : α → BuildM β} {as : List α} (h : ∀ a, (f a).Fails E) : Fails (as.mapM f) E := by
  induction as with
  | nil => exact .pure []
  | cons a as ih =>
      rw [List.mapM_cons]
      exact (h a).bind fun _ => ih.bind fun _ => .pure _

theorem foldlM {f : β → α → BuildM β} {as : List α} {b : β} (h : ∀ b a, (f b a).Fails E) :
    Fails (as.foldlM f b) E := by
  induction as generalizing b with
  | nil => exact .pure b
  | cons a as ih =>
      rw [List.foldlM_cons]
      exact (h b a).bind fun _ => ih

end Fails

/-- What is known of a step that makes no remarks about orderings. -/
theorem Ensures.of_unremarked {m : BuildM α} {P : α → Prop}
    (h : ∀ before, m.EnsuresAfter before fun a w => P a ∧ w = before) : m.Ensures P :=
  .of_after fun before => (h before).imp fun _ _ hp => hp.1

theorem Ensures.bind_congr {m : BuildM α} {f g : α → BuildM β} {P : α → Prop} (hm : m.Ensures P)
    (hfg : ∀ a, P a → f a = g a) : m >>= f = m >>= g := by
  funext p
  change (m >>= f).run p = (m >>= g).run p
  rw [StateT.run_bind, StateT.run_bind]
  cases hfirst : m.run p with
  | error e => rfl
  | ok answer => exact congrArg (fun n => n.run answer.2) (hfg answer.1 (hm p _ _ hfirst))

end BuildM

end SqlChain
