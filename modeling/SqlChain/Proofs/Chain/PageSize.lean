import SqlChain.Query.Render

/-!
# The page size and the statement

Only the rows are fetched in pages. Compilers that differ in the chunk size alone give every
expression the same term, take every step of a chain alike and render the same statement.
-/

namespace SqlChain

namespace Compiler

def withChunkSize (c : Compiler) (n : UInt64) : Compiler :=
  { c with config := { c.config with chunkSize := n } }

variable (c : Compiler) (n : UInt64)

theorem call_withChunkSize (qualifier : Option String) (function : String)
    (args : List (Arg Operand)) (frame : Option Frame) :
    (c.withChunkSize n).call qualifier function args frame =
      c.call qualifier function args frame := rfl

theorem membership_withChunkSize (operand : Compiled) (candidates : Candidates) :
    (c.withChunkSize n).membership operand candidates = c.membership operand candidates := rfl

mutual

theorem term_withChunkSize (qualifier : Option String) : ∀ e : Expr,
    (c.withChunkSize n).term qualifier e = c.term qualifier e
  | .column _ | .literal _ => rfl
  | .call function args _ => by
    funext frame
    rw [term, term, operands_withChunkSize qualifier args, call_withChunkSize]
  | .conditional condition value none => by
    funext frame
    rw [term, term, term_withChunkSize qualifier condition, term_withChunkSize qualifier value]
  | .conditional condition value (some otherwise) => by
    funext frame
    rw [term, term, term_withChunkSize qualifier condition, term_withChunkSize qualifier value,
      term_withChunkSize qualifier otherwise]
  | .inList e candidates => by
    funext frame
    rw [term, term, term_withChunkSize qualifier e, terms_withChunkSize qualifier candidates,
      membership_withChunkSize]
  | .inExpr e candidates => by
    funext frame
    rw [term, term, term_withChunkSize qualifier e, term_withChunkSize qualifier candidates,
      membership_withChunkSize]
  | .binary _ left right => by
    funext frame
    rw [term, term, term_withChunkSize qualifier left, term_withChunkSize qualifier right]
  | .unary op operand => by
    funext frame
    cases op <;> rw [term, term, term_withChunkSize qualifier operand]

theorem operandsWithin_withChunkSize (qualifier : Option String) : ∀ e : Expr,
    (c.withChunkSize n).operandsWithin qualifier e = c.operandsWithin qualifier e
  | .call _ args _ => by
    rw [operandsWithin, operandsWithin, operands_withChunkSize qualifier args]
  | .column _ | .literal _ | .conditional .. | .inList .. | .inExpr .. | .binary .. | .unary .. =>
    rfl

theorem operands_withChunkSize (qualifier : Option String) : ∀ args : List (Arg Expr),
    (c.withChunkSize n).operands qualifier args = c.operands qualifier args
  | [] => rfl
  | ⟨_, e⟩ :: rest => by
    rw [operands, operands, term_withChunkSize qualifier e, operandsWithin_withChunkSize qualifier e,
      operands_withChunkSize qualifier rest]

theorem terms_withChunkSize (qualifier : Option String) : ∀ es : List Expr,
    (c.withChunkSize n).terms qualifier es = c.terms qualifier es
  | [] => rfl
  | e :: rest => by
    rw [terms, terms, term_withChunkSize qualifier e, terms_withChunkSize qualifier rest]

end

/-! ## Texts -/

theorem keyTerm_withChunkSize (qualifier : Option String) (e : Expr) (frame : Option Frame) :
    (c.withChunkSize n).keyTerm qualifier e frame = c.keyTerm qualifier e frame := by
  simp only [keyTerm, term_withChunkSize]

theorem frame_withChunkSize (context : Context) :
    (c.withChunkSize n).frame context = c.frame context := by
  simp only [frame, keyTerm_withChunkSize]

theorem compile_withChunkSize : (c.withChunkSize n).compile = c.compile := by
  funext context e
  simp only [compile, frame_withChunkSize, term_withChunkSize]

theorem compileOperand_withChunkSize : (c.withChunkSize n).compileOperand = c.compileOperand := by
  funext context e
  simp only [compileOperand, frame_withChunkSize, term_withChunkSize]

theorem compileKeys_withChunkSize : (c.withChunkSize n).compileKeys = c.compileKeys := by
  have hkey : (c.withChunkSize n).compileKey = c.compileKey := by
    funext context e
    simp only [compileKey, frame_withChunkSize, keyTerm_withChunkSize]
  funext context keys
  rw [compileKeys, compileKeys, hkey]

/-! ## Steps -/

theorem emulateAll_withChunkSize : (c.withChunkSize n).emulateAll = c.emulateAll := by
  have hemulate : (c.withChunkSize n).emulate = c.emulate := by
    funext source groups x
    simp only [emulate, correlatedRank, compile_withChunkSize, compileOperand_withChunkSize]
    rfl
  funext s calls
  simp only [emulateAll, hemulate]
  rfl

theorem filterRows_withChunkSize : (c.withChunkSize n).filterRows = c.filterRows := by
  funext s predicate
  simp only [filterRows, compile_withChunkSize]

theorem assign_withChunkSize : (c.withChunkSize n).assign = c.assign := by
  funext s windowed name e
  simp only [assign, compile_withChunkSize]

theorem materialise_withChunkSize : (c.withChunkSize n).materialise = c.materialise := by
  funext s calls
  simp only [materialise, emulateAll_withChunkSize, assign_withChunkSize]
  rfl

theorem filter_withChunkSize : (c.withChunkSize n).filter = c.filter := by
  funext s predicate
  simp only [filter, filterRows_withChunkSize, materialise_withChunkSize]
  rfl

theorem mutate_withChunkSize : (c.withChunkSize n).mutate = c.mutate := by
  funext s name e
  simp only [mutate, assign_withChunkSize, materialise_withChunkSize]
  rfl

theorem summarise_withChunkSize : (c.withChunkSize n).summarise = c.summarise := by
  funext s assignments
  simp only [summarise, summaryItem, compile_withChunkSize]

theorem step_withChunkSize : (c.withChunkSize n).step = c.step := by
  funext s op
  cases op <;> simp only [step, filter_withChunkSize, mutate_withChunkSize, summarise_withChunkSize]

theorem finish_withChunkSize : (c.withChunkSize n).finish = c.finish := by
  funext s
  simp only [finish, compileKeys_withChunkSize]
  rfl

end Compiler

namespace Query

theorem arranged_withChunkSize (c : Compiler) (n : UInt64) :
    arranged (c.withChunkSize n) = arranged c := by
  funext mode s
  cases mode <;> simp only [arranged, Compiler.labels, Compiler.summarise_withChunkSize]

/-- A statement does not depend on the chunk size. -/
theorem render_withChunkSize (q : Query) (mode : Mode) (dialect : Dialect) (config : Config)
    (n : UInt64) :
    q.render mode dialect { config with chunkSize := n } = q.render mode dialect config := by
  have hbuiltin : Compiler.builtin dialect { config with chunkSize := n } =
      (Compiler.builtin dialect config).withChunkSize n := rfl
  have hrendering : rendering ((Compiler.builtin dialect config).withChunkSize n) mode q =
      rendering (.builtin dialect config) mode q := by
    simp only [rendering, Compiler.build, Compiler.step_withChunkSize, arranged_withChunkSize,
      Compiler.finish_withChunkSize]
  rw [render, render, hbuiltin, hrendering]

end Query

end SqlChain
