import SqlChain.Expr.Basic
import SqlChain.Text.Padded

/-!
# Extraction of window calls

The outermost calls that need a window are taken out of an expression. Each is replaced by a
column with a name that was not handed out before.
-/

namespace SqlChain

/-- A call and the temporary column that stands for it. -/
structure ExtractedCall where
  temporary : String
  function : String
  args : List (Arg Expr)
  window : Bool
deriving Repr

namespace ExtractedCall

def call (x : ExtractedCall) : Expr := .call x.function x.args x.window

end ExtractedCall

/-- The calls taken out so far, from left to right, and how many names were handed out. -/
structure Extraction where
  issued : Nat
  calls : List ExtractedCall

def temporaryName (n : Nat) : String := "win" ++ Text.padded 2 n

namespace Extraction

/-- Hand out the next name for a call. -/
def take (function : String) (args : List (Arg Expr)) (window : Bool) (x : Extraction) :
    Expr × Extraction :=
  let temporary := temporaryName (x.issued + 1)
  (.column temporary,
    { issued := x.issued + 1, calls := x.calls ++ [{ temporary, function, args, window }] })

end Extraction

namespace Expr

mutual

/-- Take out the outermost calls for which `p` holds, given their function, their number of
arguments and their flag. -/
def extract (p : String → Nat → Bool → Bool) : Expr → StateM Extraction Expr
  | .column name => return .column name
  | .literal value => return .literal value
  | .call function args window =>
    if p function args.length window then Extraction.take function args window
    else do return .call function (← extractArgs p args) window
  | .conditional condition value none => do
    let condition ← condition.extract p
    let value ← value.extract p
    return .conditional condition value none
  | .conditional condition value (some otherwise) => do
    let condition ← condition.extract p
    let value ← value.extract p
    let otherwise ← otherwise.extract p
    return .conditional condition value (some otherwise)
  | .inList expr candidates => do
    let expr ← expr.extract p
    let candidates ← extractList p candidates
    return .inList expr candidates
  | .inExpr expr candidates => do
    let expr ← expr.extract p
    let candidates ← candidates.extract p
    return .inExpr expr candidates
  | .binary op left right => do
    let left ← left.extract p
    let right ← right.extract p
    return .binary op left right
  | .unary op operand => do return .unary op (← operand.extract p)

def extractArgs (p : String → Nat → Bool → Bool) :
    List (Arg Expr) → StateM Extraction (List (Arg Expr))
  | [] => return []
  | ⟨name, e⟩ :: rest => do
    let e ← e.extract p
    let rest ← extractArgs p rest
    return ⟨name, e⟩ :: rest

def extractList (p : String → Nat → Bool → Bool) : List Expr → StateM Extraction (List Expr)
  | [] => return []
  | e :: rest => do
    let e ← e.extract p
    let rest ← extractList p rest
    return e :: rest

end

end Expr

end SqlChain
