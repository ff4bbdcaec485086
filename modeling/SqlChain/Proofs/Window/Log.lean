import SqlChain.Proofs.Building
import SqlChain.Query.Render

/-!
# Building with a log

While a statement is built, everything that is compiled is written down with what it is compiled
for and with whether that succeeded, and so is every state on the way. The log is kept where the
building fails. `Erases` says that a computation without its log is the one it was, and `Keeps` what
all its entries have in common.
-/

namespace SqlChain

/-- What an expression is compiled for. -/
inductive Purpose where
  /-- A predicate of a level. -/
  | filter
  | assignment
  | summary
  /-- An aggregate in a copy of the level, which stands for a window call. -/
  | aggregate
  /-- The key by which a correlated subquery counts. -/
  | rank
  /-- A key of the ordering of the statement. -/
  | ordering
deriving DecidableEq, Repr

inductive Event where
  | compiled (purpose : Purpose) (context : Context) (e : Expr) (succeeded : Bool)
  | reached (s : State)
deriving Repr

abbrev LoggedM := StateT Progress (ExceptT Error (StateM (List Event)))

namespace LoggedM

variable {α β : Type}

def exec (m : LoggedM α) (p : Progress) (log : List Event) :
    Except Error (α × Progress) × List Event :=
  (m.run p).run.run log

/-- A step that has nothing to write down. -/
def lift (b : BuildM α) : LoggedM α := fun p => ExceptT.mk (pure (b.run p))

def note (event : Event) : LoggedM Unit := fun p => ExceptT.mk (modifyGet fun log =>
  (.ok ((), p), log ++ [event]))

def compiling (purpose : Purpose) (context : Context) (e : Expr) (m : CompileM α) : LoggedM α :=
  fun p => ExceptT.mk (modifyGet fun log =>
    let answer := (BuildM.compiling m).run p
    (answer, log ++ [.compiled purpose context e answer.isOk]))

def reached (s : State) : LoggedM State := do
  note (.reached s)
  return s

theorem exec_bind (m : LoggedM α) (f : α → LoggedM β) (p : Progress) (log : List Event) :
    (m >>= f).exec p log = match m.exec p log with
      | (.ok (a, q), log) => (f a).exec q log
      | (.error e, log) => (.error e, log) := by
  rw [exec, StateT.run_bind, ExceptT.run_bind, StateT.run_bind]
  rw [exec]
  rcases hfirst : (m.run p).run.run log with ⟨answer, between⟩
  cases answer with
  | error e => rfl
  | ok a => rfl

/-! ## The computation without its log -/

/-- What a computation returns and what it fails with is what this one does, whatever the log. -/
def Erases (m : LoggedM α) (b : BuildM α) : Prop := ∀ p log, (m.exec p log).1 = b.run p

namespace Erases

theorem lift (b : BuildM α) : Erases (lift b) b := fun _ _ => rfl

theorem pure (a : α) : Erases (pure a) (pure a) := fun _ _ => rfl

theorem throw (e : Error) : Erases (throw e : LoggedM α) (throw e) := fun _ _ => rfl

theorem compiling {purpose : Purpose} {context : Context} {e : Expr} (m : CompileM α) :
    Erases (compiling purpose context e m) (BuildM.compiling m) := fun _ _ => rfl

theorem reached (s : State) : Erases (reached s) (Pure.pure s) := fun _ _ => rfl

theorem bind {m : LoggedM α} {b : BuildM α} {f : α → LoggedM β} {g : α → BuildM β}
    (hm : m.Erases b) (hf : ∀ a, (f a).Erases (g a)) : Erases (m >>= f) (b >>= g) := by
  intro p log
  have hfirst := hm p log
  rw [exec_bind, StateT.run_bind, ← hfirst]
  rcases m.exec p log with ⟨answer, between⟩
  cases answer with
  | error e => rfl
  | ok answer => exact hf answer.1 answer.2 between

theorem mapM {f : α → LoggedM β} {g : α → BuildM β} (h : ∀ a, (f a).Erases (g a)) (as : List α) :
    Erases (as.mapM f) (as.mapM g) := by
  induction as with
  | nil => exact .pure []
  | cons a as ih =>
      rw [List.mapM_cons, List.mapM_cons]
      exact (h a).bind fun _ => ih.bind fun _ => .pure _

theorem foldlM {f : β → α → LoggedM β} {g : β → α → BuildM β} (h : ∀ b a, (f b a).Erases (g b a))
    (b : β) (as : List α) : Erases (as.foldlM f b) (as.foldlM g b) := by
  induction as generalizing b with
  | nil => exact .pure b
  | cons a as ih =>
      rw [List.foldlM_cons, List.foldlM_cons]
      exact (h b a).bind ih

/-- A state that is also written down. -/
theorem andReached {m : LoggedM State} {b : BuildM State} (hm : m.Erases b) :
    Erases (m >>= LoggedM.reached) b := by
  have hm := hm.bind reached
  rwa [bind_pure] at hm

end Erases

/-! ## What the log says -/

/-- Every entry is as it should be, also where the computation fails, and what it returns has a
property. -/
def Keeps (m : LoggedM α) (I : Event → Prop) (P : α → Prop) : Prop :=
  ∀ p log, (∀ event ∈ log, I event) → (∀ event ∈ (m.exec p log).2, I event) ∧
    ∀ a q, (m.exec p log).1 = .ok (a, q) → P a

namespace Keeps

variable {I : Event → Prop} {P : α → Prop} {Q : β → Prop}

theorem imp {m : LoggedM α} {R : α → Prop} (h : m.Keeps I P) (hpr : ∀ a, P a → R a) :
    m.Keeps I R :=
  fun p log hlog => ⟨(h p log hlog).1, fun a q hrun => hpr a ((h p log hlog).2 a q hrun)⟩

theorem lift {b : BuildM α} (h : b.Ensures P) : Keeps (lift b) I P :=
  fun p _ hlog => ⟨hlog, fun a q hrun => h p a q hrun⟩

theorem pure {a : α} (h : P a) : Keeps (pure a) I P := by
  refine fun p log hlog => ⟨hlog, ?_⟩
  rintro _ _ ⟨⟩
  exact h

theorem throw (e : Error) : Keeps (throw e : LoggedM α) I P := by
  refine fun p log hlog => ⟨hlog, ?_⟩
  rintro _ _ ⟨⟩

theorem bind {m : LoggedM α} {f : α → LoggedM β} (hm : m.Keeps I P)
    (hf : ∀ a, P a → (f a).Keeps I Q) : Keeps (m >>= f) I Q := by
  intro p log hlog
  obtain ⟨hfirst, hanswer⟩ := hm p log hlog
  rw [exec_bind]
  rcases hrun : m.exec p log with ⟨answer, between⟩
  rw [hrun] at hfirst hanswer
  cases answer with
  | error e =>
      refine ⟨hfirst, ?_⟩
      rintro _ _ ⟨⟩
  | ok answer => exact hf answer.1 (hanswer _ _ rfl) answer.2 between hfirst

theorem compiling {purpose : Purpose} {context : Context} {e : Expr} {m : CompileM α}
    (hsome : ∀ before a later, m.run.run before = (.ok a, later) →
      I (.compiled purpose context e true))
    (hfail : I (.compiled purpose context e false)) (hm : m.Ensures P) :
    Keeps (compiling purpose context e m) I P := by
  intro p log hlog
  refine ⟨List.forall_mem_append.2 ⟨hlog, List.forall_mem_singleton.2 ?_⟩,
    (BuildM.Ensures.compiling hm) p⟩
  rw [BuildM.run_compiling]
  rcases hrun : m.run.run p.compiled with ⟨answer, later⟩
  cases answer with
  | error e => exact hfail
  | ok a => exact hsome _ _ _ hrun

theorem reached {s : State} {R : State → Prop} (hs : R s) (hevent : I (.reached s)) :
    Keeps (reached s) I R := by
  intro p log hlog
  refine ⟨List.forall_mem_append.2 ⟨hlog, List.forall_mem_singleton.2 hevent⟩, ?_⟩
  rintro _ _ ⟨⟩
  exact hs

theorem mapM {f : α → LoggedM β} {as : List α} (h : ∀ a ∈ as, (f a).Keeps I Q) :
    Keeps (as.mapM f) I fun bs => ∀ b ∈ bs, Q b := by
  induction as with
  | nil => exact .pure (by simp)
  | cons a as ih =>
      rw [List.mapM_cons]
      refine (h a (by simp)).bind fun b hb => ?_
      refine (ih fun x hx => h x (List.mem_cons_of_mem _ hx)).bind fun bs hbs => ?_
      exact .pure (List.forall_mem_cons.2 ⟨hb, hbs⟩)

theorem foldlM {f : β → α → LoggedM β} {as : List α} {b : β} (hb : Q b)
    (h : ∀ b, Q b → ∀ a ∈ as, (f b a).Keeps I Q) : Keeps (as.foldlM f b) I Q := by
  induction as generalizing b with
  | nil => exact .pure hb
  | cons a as ih =>
      rw [List.foldlM_cons]
      refine (h b hb a (by simp)).bind fun next hnext => ?_
      exact ih hnext fun b hb a ha => h b hb a (List.mem_cons_of_mem _ ha)

/-- What is known of a computation with a log is known of it without one. -/
theorem ensures {m : LoggedM α} {b : BuildM α} (h : m.Keeps I P) (hm : m.Erases b) :
    b.Ensures P := by
  intro p a q hrun
  refine (h p [] (by simp)).2 a q ?_
  rw [hm p [], hrun]

end Keeps

end LoggedM

end SqlChain
