import Mathlib.Data.List.Forall2
import SqlChain.Query.State

/-!
# What compiling and building ensure

A computation that may fail ensures a property if all values it can return have it. Both kinds of
computations of this library have the same rules, one for every way in which they are put together.
-/

namespace SqlChain

variable {α β : Type}

theorem exists_of_bind_eq_ok {r : Except Error α} {f : α → Except Error β} {b : β}
    (h : r >>= f = .ok b) : ∃ a, r = .ok a ∧ f a = .ok b := by
  cases r with
  | error e => cases h
  | ok a => exact ⟨a, rfl, h⟩

theorem exists_bind_eq_ok {r : Except Error α} {f : α → Except Error β} (h : ∃ a, r = .ok a)
    (hf : ∀ a, ∃ b, f a = .ok b) : ∃ b, r >>= f = .ok b := by
  obtain ⟨a, rfl⟩ := h
  exact hf a

theorem exists_mapM_eq_ok {f : α → Except Error β} {as : List α} (h : ∀ a ∈ as, ∃ b, f a = .ok b) :
    ∃ bs, as.mapM f = .ok bs := by
  induction as with
  | nil => exact ⟨[], rfl⟩
  | cons a rest ih =>
      rw [List.mapM_cons]
      refine exists_bind_eq_ok (h a (by simp)) fun b => exists_bind_eq_ok ?_ fun bs => ⟨_, rfl⟩
      exact ih fun x hx => h x (List.mem_cons_of_mem _ hx)

theorem exists_of_isOk {r : Except Error α} (h : r.isOk = true) : ∃ a, r = .ok a := by
  cases r with
  | error e => cases h
  | ok a => exact ⟨a, rfl⟩

theorem forall_of_mapM_eq_ok {f : α → Except Error β} {as : List α} {bs : List β}
    {P : β → Prop} (h : as.mapM f = .ok bs) (hf : ∀ a ∈ as, ∀ b, f a = .ok b → P b) :
    ∀ b ∈ bs, P b := by
  induction as generalizing bs with
  | nil =>
      cases h
      simp
  | cons a as ih =>
      rw [List.mapM_cons] at h
      obtain ⟨b, hb, h⟩ := exists_of_bind_eq_ok h
      obtain ⟨rest, hrest, h⟩ := exists_of_bind_eq_ok h
      cases h
      intro x hx
      rcases List.mem_cons.1 hx with rfl | hx
      · exact hf a (by simp) x hb
      · exact ih hrest (fun a ha => hf a (List.mem_cons_of_mem _ ha)) x hx

theorem forall₂_of_mapM_eq_ok {f : α → Except Error β} {as : List α} {bs : List β}
    (h : as.mapM f = .ok bs) : List.Forall₂ (fun a b => f a = .ok b) as bs := by
  induction as generalizing bs with
  | nil =>
      cases h
      exact .nil
  | cons a as ih =>
      rw [List.mapM_cons] at h
      obtain ⟨b, hb, h⟩ := exists_of_bind_eq_ok h
      obtain ⟨rest, hrest, h⟩ := exists_of_bind_eq_ok h
      cases h
      exact .cons hb (ih hrest)

theorem forall_of_forall₂ {P : β → Prop} {as : List α} {bs : List β}
    (h : List.Forall₂ (fun _ b => P b) as bs) : ∀ b ∈ bs, P b := by
  induction h with
  | nil => simp
  | cons hb _ ih =>
      intro x hx
      rcases List.mem_cons.1 hx with rfl | hx
      · exact hb
      · exact ih x hx

theorem map_eq_of_forall₂ {γ : Type} {R : α → β → Prop} {f : α → γ} {g : β → γ} {as : List α}
    {bs : List β} (h : List.Forall₂ R as bs) (hfg : ∀ a b, R a b → f a = g b) :
    as.map f = bs.map g := by
  induction h with
  | nil => rfl
  | cons hab _ ih => rw [List.map_cons, List.map_cons, ih, hfg _ _ hab]

namespace CompileM

def Ensures (m : CompileM α) (P : α → Prop) : Prop :=
  ∀ warnings a later, m.run.run warnings = (.ok a, later) → P a

variable {P : α → Prop} {Q : β → Prop}

theorem Ensures.imp {m : CompileM α} {R : α → Prop} (h : Ensures m P) (hpr : ∀ a, P a → R a) :
    Ensures m R :=
  fun warnings a later hrun => hpr a (h warnings a later hrun)

theorem Ensures.and {m : CompileM α} {R : α → Prop} (h : Ensures m P) (hr : Ensures m R) :
    Ensures m fun a => P a ∧ R a :=
  fun warnings a later hrun => ⟨h warnings a later hrun, hr warnings a later hrun⟩

theorem Ensures.pure {a : α} (h : P a) : Ensures (pure a) P := by
  rintro warnings b later ⟨⟩
  exact h

theorem Ensures.throw (e : Error) : Ensures (throw e) P := by
  rintro warnings b later ⟨⟩

theorem Ensures.attempt {r : Except Error α} (h : ∀ a, r = .ok a → P a) :
    Ensures (attempt r) P := by
  rintro warnings b later ⟨⟩
  exact h b rfl

theorem run_bind (m : CompileM α) (f : α → CompileM β) (warnings : List Warning) :
    (m >>= f).run.run warnings =
      (ExceptT.bindCont f (m.run.run warnings).1).run (m.run.run warnings).2 := by
  change StateT.run (m.run >>= ExceptT.bindCont f) warnings = _
  rw [StateT.run_bind]
  rfl

theorem Ensures.bind {m : CompileM α} {f : α → CompileM β} (hm : Ensures m P)
    (hf : ∀ a, P a → Ensures (f a) Q) : Ensures (m >>= f) Q := by
  intro warnings b later hrun
  rw [run_bind] at hrun
  rcases hfirst : m.run.run warnings with ⟨answer, between⟩
  rw [hfirst] at hrun
  cases answer with
  | error e => cases hrun
  | ok a => exact hf a (hm warnings a between hfirst) between b later hrun

theorem Ensures.bind_congr {m : CompileM α} {f g : α → CompileM β} (hm : Ensures m P)
    (hfg : ∀ a, P a → f a = g a) : m >>= f = m >>= g := by
  refine ExceptT.ext (funext fun warnings => ?_)
  change (m >>= f).run.run warnings = (m >>= g).run.run warnings
  rw [run_bind, run_bind]
  rcases hfirst : m.run.run warnings with ⟨answer, between⟩
  cases answer with
  | error e => rfl
  | ok a =>
      have ha := hfg a (hm warnings a between hfirst)
      exact congrArg (fun n : CompileM β => n.run.run between) ha

/-- What comes after a computation may not depend on what it returned. -/
theorem Ensures.bind_any {m : CompileM α} {f : α → CompileM β} (hf : ∀ a, Ensures (f a) Q) :
    Ensures (m >>= f) Q :=
  Ensures.bind (P := fun _ => True) (fun _ _ _ _ => True.intro) fun a _ => hf a

theorem Ensures.mapM {f : α → CompileM β} {R : α → β → Prop} {as : List α}
    (h : ∀ a ∈ as, Ensures (f a) (R a)) : Ensures (as.mapM f) (List.Forall₂ R as) := by
  induction as with
  | nil => exact Ensures.pure .nil
  | cons a as ih =>
      rw [List.mapM_cons]
      refine (h a (by simp)).bind fun b hb => ?_
      refine (ih fun x hx => h x (List.mem_cons_of_mem _ hx)).bind fun bs hbs => ?_
      exact Ensures.pure (.cons hb hbs)

theorem Ensures.length_mapM (f : α → CompileM β) (as : List α) :
    Ensures (as.mapM f) fun bs => bs.length = as.length := by
  have htrivial : Ensures (as.mapM f) (List.Forall₂ (fun _ _ => True) as) :=
    .mapM fun _ _ _ _ _ _ => True.intro
  exact htrivial.imp fun _ h => h.length_eq.symm

theorem Ensures.mapM_forall {f : α → CompileM β} {as : List α}
    (h : ∀ a ∈ as, Ensures (f a) Q) : Ensures (as.mapM f) fun bs => ∀ b ∈ bs, Q b :=
  (Ensures.mapM h).imp fun _ => forall_of_forall₂

end CompileM

namespace BuildM

def Ensures (m : BuildM α) (P : α → Prop) : Prop := ∀ p a q, m.run p = .ok (a, q) → P a

variable {P : α → Prop} {Q : β → Prop}

theorem Ensures.imp {m : BuildM α} {R : α → Prop} (h : Ensures m P) (hpr : ∀ a, P a → R a) :
    Ensures m R :=
  fun p a q hrun => hpr a (h p a q hrun)

theorem Ensures.and {m : BuildM α} {R : α → Prop} (h : Ensures m P) (hr : Ensures m R) :
    Ensures m fun a => P a ∧ R a :=
  fun p a q hrun => ⟨h p a q hrun, hr p a q hrun⟩

theorem Ensures.trivial (m : BuildM α) : Ensures m fun _ => True := fun _ _ _ _ => True.intro

theorem Ensures.pure {a : α} (h : P a) : Ensures (pure a) P := by
  rintro p b q ⟨⟩
  exact h

theorem Ensures.throw (e : Error) : Ensures (throw e) P := by
  rintro p b q ⟨⟩

theorem Ensures.lift {r : Except Error α} (h : ∀ a, r = .ok a → P a) :
    Ensures (liftM r : BuildM α) P := by
  intro p b q hrun
  cases r with
  | error e => cases hrun
  | ok a =>
      cases hrun
      exact h _ rfl

theorem Ensures.bind {m : BuildM α} {f : α → BuildM β} (hm : Ensures m P)
    (hf : ∀ a, P a → Ensures (f a) Q) : Ensures (m >>= f) Q := by
  intro p b q hrun
  rw [StateT.run_bind] at hrun
  cases hfirst : m.run p with
  | error e =>
      rw [hfirst] at hrun
      cases hrun
  | ok answer =>
      rw [hfirst] at hrun
      exact hf answer.1 (hm p answer.1 answer.2 hfirst) answer.2 b q hrun

theorem run_compiling (m : CompileM α) (p : Progress) :
    (compiling m).run p = match m.run.run p.compiled with
      | (.ok a, compiled) => .ok (a, { p with compiled })
      | (.error e, _) => .error e := rfl

theorem Ensures.compiling {m : CompileM α} (h : m.Ensures P) : Ensures (compiling m) P := by
  intro p a q hrun
  rcases hm : m.run.run p.compiled with ⟨answer, later⟩
  rw [run_compiling, hm] at hrun
  cases answer with
  | error e => cases hrun
  | ok b =>
      cases hrun
      exact h _ _ _ hm

theorem Ensures.mapM {f : α → BuildM β} {R : α → β → Prop} {as : List α}
    (h : ∀ a ∈ as, Ensures (f a) (R a)) : Ensures (as.mapM f) (List.Forall₂ R as) := by
  induction as with
  | nil => exact Ensures.pure .nil
  | cons a as ih =>
      rw [List.mapM_cons]
      refine (h a (by simp)).bind fun b hb => ?_
      refine (ih fun x hx => h x (List.mem_cons_of_mem _ hx)).bind fun bs hbs => ?_
      exact Ensures.pure (.cons hb hbs)

theorem Ensures.mapM_forall {f : α → BuildM β} {as : List α}
    (h : ∀ a ∈ as, Ensures (f a) Q) : Ensures (as.mapM f) fun bs => ∀ b ∈ bs, Q b :=
  (Ensures.mapM h).imp fun _ => forall_of_forall₂

/-- What every step preserves is preserved by all of them. -/
theorem Ensures.foldlM {f : β → α → BuildM β} {as : List α} {b : β} (hb : Q b)
    (h : ∀ b, Q b → ∀ a ∈ as, Ensures (f b a) Q) : Ensures (as.foldlM f b) Q := by
  induction as generalizing b with
  | nil => exact Ensures.pure hb
  | cons a as ih =>
      rw [List.foldlM_cons]
      refine (h b hb a (by simp)).bind fun next hnext => ?_
      exact ih hnext fun b hb a ha => h b hb a (List.mem_cons_of_mem _ ha)

/-- Steps that go along with those of a fold go along with the whole of it, as long as what the
fold has come to is valid. -/
theorem Ensures.foldlM_foldl {γ : Type} {R : β → γ → Prop} (Valid : γ → Prop)
    {f : β → α → BuildM β} {g : γ → α → γ} {as : List α} {b : β} {x : γ} (hb : R b x)
    (hvalid : ∀ n, Valid ((as.take n).foldl g x))
    (h : ∀ b x, R b x → Valid x → ∀ a ∈ as, Ensures (f b a) fun b => R b (g x a)) :
    Ensures (as.foldlM f b) fun b => R b (as.foldl g x) := by
  induction as generalizing b x with
  | nil => exact Ensures.pure hb
  | cons a as ih =>
      rw [List.foldlM_cons]
      refine (h b x hb (hvalid 0) a (by simp)).bind fun next hnext => ?_
      refine ih hnext (fun n => hvalid (n + 1)) ?_
      exact fun b x hb hx a ha => h b x hb hx a (List.mem_cons_of_mem _ ha)

/-! ## Remarks about orderings -/

/-- What a step returns, and what has been remarked about orderings after it, where `before` had
been remarked when it began. -/
def EnsuresAfter (m : BuildM α) (before : List Warning) (P : α → List Warning → Prop) : Prop :=
  ∀ p a q, p.dropped = before → m.run p = .ok (a, q) → P a q.dropped

section

variable {before : List Warning} {P : α → List Warning → Prop} {Q : β → List Warning → Prop}

theorem EnsuresAfter.imp {m : BuildM α} {R : α → List Warning → Prop}
    (h : m.EnsuresAfter before P) (hpr : ∀ a w, P a w → R a w) : m.EnsuresAfter before R :=
  fun p a q hp hrun => hpr a q.dropped (h p a q hp hrun)

theorem EnsuresAfter.trivial (m : BuildM α) : m.EnsuresAfter before fun _ _ => True :=
  fun _ _ _ _ _ => True.intro

theorem EnsuresAfter.and {R : α → List Warning → Prop} {m : BuildM α} (h : m.EnsuresAfter before P)
    (hr : m.EnsuresAfter before R) : m.EnsuresAfter before fun a w => P a w ∧ R a w :=
  fun p a q hp hrun => ⟨h p a q hp hrun, hr p a q hp hrun⟩

theorem Ensures.of_after {P : α → Prop} {m : BuildM α}
    (h : ∀ before, m.EnsuresAfter before fun a _ => P a) : m.Ensures P :=
  fun p a q hrun => h p.dropped p a q rfl hrun

theorem EnsuresAfter.pure {a : α} (h : P a before) : EnsuresAfter (pure a) before P := by
  rintro p b q rfl ⟨⟩
  exact h

theorem EnsuresAfter.throw (e : Error) : EnsuresAfter (throw e) before P := by
  rintro p b q - ⟨⟩

theorem EnsuresAfter.lift (r : Except Error α) :
    EnsuresAfter (liftM r : BuildM α) before fun a w => r = .ok a ∧ w = before := by
  rintro p b q rfl hrun
  cases r with
  | error e => cases hrun
  | ok a =>
      cases hrun
      exact ⟨rfl, rfl⟩

theorem EnsuresAfter.bind {m : BuildM α} {f : α → BuildM β} (hm : m.EnsuresAfter before P)
    (hf : ∀ a w, P a w → (f a).EnsuresAfter w Q) : EnsuresAfter (m >>= f) before Q := by
  intro p b q hp hrun
  rw [StateT.run_bind] at hrun
  cases hfirst : m.run p with
  | error e =>
      rw [hfirst] at hrun
      cases hrun
  | ok answer =>
      rw [hfirst] at hrun
      have hanswer := hm p answer.1 answer.2 hp hfirst
      exact hf answer.1 answer.2.dropped hanswer answer.2 b q rfl hrun

/-- The names that are handed out for subqueries have no influence on anything else. -/
theorem EnsuresAfter.bind_nextSubquery {f : String → BuildM β}
    (hf : ∀ name, (f name).EnsuresAfter before Q) :
    EnsuresAfter (nextSubquery >>= f) before Q := by
  refine EnsuresAfter.bind (P := fun _ w => w = before) ?_ ?_
  · rintro p name q rfl ⟨⟩
    rfl
  · rintro name _ rfl
    exact hf name

theorem EnsuresAfter.bind_drop {dropped : List Warning} {f : PUnit → BuildM β}
    (hf : (f ⟨⟩).EnsuresAfter (before ++ dropped) Q) :
    EnsuresAfter ((modify fun p => { p with dropped := p.dropped ++ dropped }) >>= f) before Q := by
  refine EnsuresAfter.bind (P := fun _ w => w = before ++ dropped) ?_ ?_
  · rintro p _ q rfl ⟨⟩
    rfl
  · rintro _ _ rfl
    exact hf

/-- Compiling makes remarks of its own, and none about orderings. -/
theorem EnsuresAfter.compiling (m : CompileM α) :
    EnsuresAfter (compiling m) before fun a w =>
      (∃ warnings later, m.run.run warnings = (.ok a, later)) ∧ w = before := by
  rintro p a q rfl hrun
  rcases hm : m.run.run p.compiled with ⟨answer, later⟩
  rw [run_compiling, hm] at hrun
  cases answer with
  | error e => cases hrun
  | ok b =>
      cases hrun
      exact ⟨⟨_, _, hm⟩, rfl⟩

theorem EnsuresAfter.mapM {f : α → BuildM β} {R : α → β → Prop} {as : List α}
    (h : ∀ a ∈ as, (f a).EnsuresAfter before fun b w => R a b ∧ w = before) :
    EnsuresAfter (as.mapM f) before fun bs w => List.Forall₂ R as bs ∧ w = before := by
  induction as with
  | nil => exact .pure ⟨.nil, rfl⟩
  | cons a as ih =>
      rw [List.mapM_cons]
      refine (h a (by simp)).bind ?_
      rintro b _ ⟨hb, rfl⟩
      refine (ih fun x hx => h x (List.mem_cons_of_mem _ hx)).bind ?_
      rintro bs _ ⟨hbs, rfl⟩
      exact .pure ⟨.cons hb hbs, rfl⟩

/-- Steps that go along with those of a fold go along with the whole of it. -/
theorem EnsuresAfter.foldlM_foldl {γ : Type} {R : β → List Warning → γ → Prop}
    {f : β → α → BuildM β} {g : γ → α → γ} {as : List α} {b : β} {x : γ} (hb : R b before x)
    (h : ∀ b w x, R b w x → ∀ a ∈ as, (f b a).EnsuresAfter w fun b w => R b w (g x a)) :
    EnsuresAfter (as.foldlM f b) before fun b w => R b w (as.foldl g x) := by
  induction as generalizing b x before with
  | nil => exact .pure hb
  | cons a as ih =>
      rw [List.foldlM_cons]
      refine (h b before x hb a (by simp)).bind fun next w hnext => ih hnext ?_
      exact fun b w x hb a ha => h b w x hb a (List.mem_cons_of_mem _ ha)

end

end BuildM

end SqlChain
