import SqlChain.Proofs.Branches

/-!
# Success that carries over

One computation leads to another if the other succeeds whenever it does. As for what computations
ensure, there is a rule for every way in which they are put together.
-/

namespace SqlChain

variable {α β γ δ : Type}

namespace CompileM

/-- The second computation succeeds if the first one does, whatever was remarked before, and what
they return is related. -/
def LeadsTo (R : α → β → Prop) (m : CompileM α) (n : CompileM β) : Prop :=
  ∀ before a after, m.run.run before = (.ok a, after) →
    ∀ warnings, ∃ b later, n.run.run warnings = (.ok b, later) ∧ R a b

abbrev Leads (m : CompileM α) (n : CompileM β) : Prop := LeadsTo (fun _ _ => True) m n

/-- The computation succeeds once. -/
def Passes (m : CompileM α) : Prop := ∃ before a after, m.run.run before = (.ok a, after)

def Succeeds (n : CompileM β) : Prop := ∀ warnings, ∃ b later, n.run.run warnings = (.ok b, later)

variable {R : α → β → Prop} {Q : γ → δ → Prop}

theorem Succeeds.leads {n : CompileM β} (h : n.Succeeds) (m : CompileM α) : m.Leads n := by
  intro _ _ _ _ warnings
  obtain ⟨b, later, hrun⟩ := h warnings
  exact ⟨b, later, hrun, True.intro⟩

theorem Leads.succeeds {m : CompileM α} {n : CompileM β} (h : m.Leads n) (hm : m.Passes) :
    n.Succeeds := by
  intro warnings
  obtain ⟨before, a, after, hm⟩ := hm
  obtain ⟨b, later, hrun, _⟩ := h before a after hm warnings
  exact ⟨b, later, hrun⟩

theorem LeadsTo.leads {m : CompileM α} {n : CompileM β} (h : LeadsTo R m n) : m.Leads n := by
  intro before a after hm warnings
  obtain ⟨b, later, hrun, _⟩ := h before a after hm warnings
  exact ⟨b, later, hrun, True.intro⟩

theorem LeadsTo.pure {a : α} {b : β} (h : R a b) : LeadsTo R (pure a) (pure b) := by
  rintro _ _ _ ⟨⟩ warnings
  exact ⟨b, warnings, rfl, h⟩

theorem LeadsTo.throw (e : Error) (n : CompileM β) : LeadsTo R (throw e) n := by
  rintro _ _ _ ⟨⟩

theorem LeadsTo.attempt {r : Except Error α} {t : Except Error β}
    (h : ∀ a, r = .ok a → ∃ b, t = .ok b ∧ R a b) : LeadsTo R (attempt r) (attempt t) := by
  rintro _ a _ ⟨⟩ warnings
  obtain ⟨b, rfl, hab⟩ := h a rfl
  exact ⟨b, warnings, rfl, hab⟩

theorem throw_bind_leadsTo (e : Error) (f : γ → CompileM α) (n : CompileM β) :
    LeadsTo R (throw e >>= f) n := by
  intro before a after hrun
  rw [run_bind] at hrun
  cases hrun

theorem Passes.of_bind {m : CompileM α} {f : α → CompileM γ} (h : (m >>= f).Passes) : m.Passes := by
  obtain ⟨before, x, after, hrun⟩ := h
  rw [run_bind] at hrun
  rcases hm : m.run.run before with ⟨answer, between⟩
  rw [hm] at hrun
  cases answer with
  | error e => cases hrun
  | ok a => exact ⟨before, a, between, hm⟩

theorem LeadsTo.bind {m : CompileM α} {n : CompileM β} {f : α → CompileM γ} {g : β → CompileM δ}
    (h : LeadsTo R m n) (hfg : ∀ a b, R a b → LeadsTo Q (f a) (g b)) :
    LeadsTo Q (m >>= f) (n >>= g) := by
  intro before x after hrun warnings
  rw [run_bind] at hrun
  rcases hm : m.run.run before with ⟨answer, between⟩
  rw [hm] at hrun
  cases answer with
  | error e => cases hrun
  | ok a =>
      obtain ⟨b, later, hn, hab⟩ := h before a between hm warnings
      obtain ⟨y, last, hlast, hxy⟩ := hfg a b hab between x after hrun later
      refine ⟨y, last, ?_, hxy⟩
      rw [run_bind, hn]
      exact hlast

theorem LeadsTo.mapM {f : α → CompileM γ} {g : β → CompileM δ} {as : List α} {bs : List β}
    (h : List.Forall₂ (fun a b => LeadsTo Q (f a) (g b)) as bs) :
    LeadsTo (List.Forall₂ Q) (as.mapM f) (bs.mapM g) := by
  induction h with
  | nil => exact .pure .nil
  | cons hab _ ih =>
      rw [List.mapM_cons, List.mapM_cons]
      exact hab.bind fun _ _ hxy => ih.bind fun _ _ hrest => .pure (.cons hxy hrest)

theorem Succeeds.pure (b : β) : Succeeds (pure b : CompileM β) :=
  fun warnings => ⟨b, warnings, rfl⟩

theorem Succeeds.attempt {t : Except Error β} (h : ∃ b, t = .ok b) : (attempt t).Succeeds := by
  obtain ⟨b, rfl⟩ := h
  exact fun warnings => ⟨b, warnings, rfl⟩

theorem Succeeds.bind {n : CompileM β} {g : β → CompileM δ} (h : n.Succeeds)
    (hg : ∀ b, (g b).Succeeds) : (n >>= g).Succeeds := by
  intro warnings
  obtain ⟨b, later, hn⟩ := h warnings
  rw [run_bind, hn]
  exact hg b later

theorem Succeeds.mapM {g : β → CompileM δ} {bs : List β} (h : ∀ b ∈ bs, (g b).Succeeds) :
    (bs.mapM g).Succeeds := by
  induction bs with
  | nil => exact .pure []
  | cons b rest ih =>
      rw [List.mapM_cons]
      refine (h b (by simp)).bind fun _ => Succeeds.bind ?_ fun _ => .pure _
      exact ih fun x hx => h x (List.mem_cons_of_mem _ hx)

end CompileM

namespace BuildM

/-- The computation succeeds if `before` was remarked about orderings when it began. -/
def SucceedsAfter (m : BuildM α) (before : List Warning) : Prop :=
  ∀ p, p.dropped = before → ∃ a q, m.run p = .ok (a, q)

variable {before : List Warning} {P : α → List Warning → Prop}

theorem SucceedsAfter.pure (a : α) : (pure a : BuildM α).SucceedsAfter before :=
  fun p _ => ⟨a, p, rfl⟩

theorem SucceedsAfter.lift {r : Except Error α} (h : ∃ a, r = .ok a) :
    (liftM r : BuildM α).SucceedsAfter before := by
  obtain ⟨a, rfl⟩ := h
  exact fun p _ => ⟨a, p, rfl⟩

theorem SucceedsAfter.compiling {m : CompileM α} (h : m.Succeeds) :
    (compiling m).SucceedsAfter before := by
  intro p _
  obtain ⟨a, later, hm⟩ := h p.compiled
  exact ⟨a, { p with compiled := later }, by rw [run_compiling, hm]⟩

/-- What the first part ensures may be used for the second. -/
theorem SucceedsAfter.bind {m : BuildM α} {f : α → BuildM β} (h : m.SucceedsAfter before)
    (hm : m.EnsuresAfter before P) (hf : ∀ a w, P a w → (f a).SucceedsAfter w) :
    (m >>= f).SucceedsAfter before := by
  intro p hp
  obtain ⟨a, between, hrun⟩ := h p hp
  obtain ⟨b, later, hlast⟩ := hf a between.dropped (hm p a between hp hrun) between rfl
  refine ⟨b, later, ?_⟩
  rw [StateT.run_bind, hrun]
  exact hlast

theorem SucceedsAfter.seq {m : BuildM α} {f : α → BuildM β} (h : m.SucceedsAfter before)
    (hf : ∀ a w, (f a).SucceedsAfter w) : (m >>= f).SucceedsAfter before :=
  h.bind (.trivial m) fun a w _ => hf a w

/-- What the first part ensures of nothing but itself is ensured by the whole. -/
theorem EnsuresAfter.seq {p : Prop} {m : BuildM α} (h : m.EnsuresAfter before fun _ _ => p)
    (f : α → BuildM β) : (m >>= f).EnsuresAfter before fun _ _ => p :=
  h.bind fun _ _ hp => (EnsuresAfter.trivial _).imp fun _ _ _ => hp

theorem SucceedsAfter.mapM {f : α → BuildM β} {as : List α}
    (h : ∀ a ∈ as, ∀ before, (f a).SucceedsAfter before) : (as.mapM f).SucceedsAfter before := by
  induction as generalizing before with
  | nil => exact .pure []
  | cons a rest ih =>
      rw [List.mapM_cons]
      refine (h a (by simp) before).seq fun _ _ => SucceedsAfter.seq ?_ fun _ _ => .pure _
      exact ih fun x hx => h x (List.mem_cons_of_mem _ hx)

end BuildM

end SqlChain
