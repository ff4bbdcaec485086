import SqlChain.Proofs.Inherited

/-!
# What compiling does not depend on

What an expression compiles to, or fails with, does not depend on what has been warned of before
(`steady_term_frame`). So the term that a text was written from is found again by compiling once
more.
-/

namespace SqlChain

namespace CompileM

/-- The outcome is the same whatever has been warned of. -/
def Steady {α : Type} (m : CompileM α) : Prop :=
  ∀ warnings, (m.run.run warnings).1 = (m.run.run []).1

/-- All computations are steady that are put together of steady ones. -/
theorem Steady.isInherited : IsInherited (fun _ m => m.Steady) fun _ => True where
  others := fun _ _ => True.intro
  pure := fun _ _ => rfl
  throw := fun _ _ => rfl
  warn := fun _ _ => rfl
  bind_of := by
    intro α β m f P hm hp hf warnings
    rw [run_bind, run_bind, hm warnings]
    rcases hfirst : m.run.run [] with ⟨answer, between⟩
    cases answer with
    | error e => rfl
    | ok a =>
        have ha := hf a (hp [] a between hfirst)
        exact (ha (m.run.run warnings).2).trans (ha between).symm

end CompileM

/-- The term of an expression in a context. -/
theorem Compiler.steady_term_frame (c : Compiler) (context : Context) (e : Expr) :
    (c.term context.qualifier e (c.frame context)).Steady :=
  holds_term_frame CompileM.Steady.isInherited (fun _ _ _ _ _ _ => .inr True.intro) context e

end SqlChain
