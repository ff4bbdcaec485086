/-!
# Arities

How many arguments a function takes.
-/

namespace SqlChain

inductive Arity where
  | exact (n : Nat)
  /-- Both ends belong to the range. -/
  | range (least most : Nat)
  | atLeast (least : Nat)
deriving DecidableEq, Repr

namespace Arity

def accepts : Arity → Nat → Bool
  | .exact n, k => k == n
  | .range least most, k => least ≤ k && k ≤ most
  | .atLeast least, k => least ≤ k

def text : Arity → String
  | .exact n => toString n
  | .range least most => toString least ++ " to " ++ toString most
  | .atLeast least => "at least " ++ toString least

end Arity

end SqlChain
