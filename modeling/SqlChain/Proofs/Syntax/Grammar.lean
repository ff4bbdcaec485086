import SqlChain.Proofs.Syntax.Lexer

/-!
# Operator trees

A grammar of expressions says how strongly the operators bind. A minus sign in front of an operand
binds tightest, and `NOT` binds tighter than `AND` and `OR`; everything else is left open. Whatever
is chosen, lexemes are read as at most one tree.
-/

namespace SqlChain.Syntax

inductive Tree where
  | column (qualifier : Option String) (name : String)
  | literal (text : String)
  | call (function : String) (args : List Tree)
  /-- A call with a star for all its arguments. -/
  | callAll (function : String)
  | callDistinct (function : String) (args : List Tree)
  | cast (operand : Tree) (type : String)
  | conditional (condition value : Tree) (otherwise : Option Tree)
  | negate (operand : Tree)
  | not (operand : Tree)
  | isNull (operand : Tree)
  | binary (op : String) (left right : Tree)
  | between (operand low high : Tree)
  | member (operand : Tree) (items : List Tree)

/-- The tree of a literal, a number with a sign being the negative of one without. -/
def literalTree (text : String) : Tree :=
  match text.toList with
  | '-' :: digits => .negate (.literal (String.ofList digits))
  | _ => .literal text

/-- Whether an operator may have a `NOT` as an operand without parentheses. -/
def guards (op : String) : Bool := op == "AND" || op == "OR"

/-- How an operand ends. What stands behind a `NOT` would belong to what is negated. -/
inductive Tail where
  | closed
  | not
  /-- A `NOT` behind a minus sign. -/
  | minusNot
deriving DecidableEq

namespace Tail

def isOpen : Tail → Bool
  | .closed => false
  | .not | .minusNot => true

@[simp] theorem isOpen_closed : closed.isOpen = false := rfl

@[simp] theorem isOpen_not : Tail.not.isOpen = true := rfl

@[simp] theorem isOpen_minusNot : minusNot.isOpen = true := rfl

/-- How an operand ends behind a minus sign. A second sign brings parentheses with it. -/
def negate : Tail → Tail
  | .not => .minusNot
  | .closed | .minusNot => .closed

end Tail

structure Grammar where
  /-- How strongly an operator between operands binds. -/
  level : String → Nat
  groupsRight : String → Bool
  notLevel : Nat
  and_lt : level "AND" < notLevel
  or_lt : level "OR" < notLevel

/-- What may stand behind an operand. -/
inductive Suffix where
  | operator (op : String)
  | isNull
  | between
  | member

def Suffix.name : Suffix → String
  | .operator op => op
  | .isNull => "IS"
  | .between => "BETWEEN"
  | .member => "IN"

/-- The operators that are no words. -/
def signs : List String :=
  ["+", "-", "*", "/", "%", "=", "!=", "<>", "<", "<=", ">", ">=", "||"]

def suffix? : List Lexeme → Option (Suffix × List Lexeme)
  | .mark s :: rest => if s ∈ signs then some (.operator s, rest) else none
  | .word w :: rest =>
    if w = "AND" ∨ w = "OR" then some (.operator w, rest)
    else if w = "BETWEEN" then some (.between, rest)
    else if w = "IN" then some (.member, rest)
    else if w = "IS" ∧ rest.head? = some (.word "NULL") then some (.isNull, rest.tail)
    else none
  | _ => none

def expect (x : Lexeme) : List Lexeme → Option (List Lexeme)
  | [] => none
  | y :: rest => if y = x then some rest else none

def constants : List String := ["NULL", "TRUE", "FALSE"]

/-- The words that begin no operand. -/
def reserved : List String :=
  ["AND", "OR", "BETWEEN", "IN", "IS", "DISTINCT", "FROM", "FOR", "AS", "WHEN", "THEN", "ELSE", "END"]

namespace Grammar

variable (g : Grammar)

/-- How strongly an operator has to bind to belong to the right operand of another. -/
def rightLevel (op : String) : Nat := if g.groupsRight op then g.level op else g.level op + 1

/-- The `AND` behind the lower bound of an interval belongs to the interval. -/
def lowLevel : Nat := max (g.level "BETWEEN") (g.level "AND") + 1

mutual

/-- A tree without operators behind it, and the lexemes that are left. -/
def operand : Nat → List Lexeme → Option (Tree × List Lexeme)
  | 0, _ => none
  | _ + 1, [] => none
  | _ + 1, .number s :: rest => some (.literal s, rest)
  | _ + 1, .string s :: rest => some (.literal s, rest)
  | _ + 1, .name s :: .mark "." :: .name t :: rest => some (.column (some s) t, rest)
  | _ + 1, .name s :: rest => some (.column none s, rest)
  | n + 1, .mark s :: rest =>
    if s = "-" then do
      let (t, rest) ← operand n rest
      return (.negate t, rest)
    else if s = "(" then do
      let (t, rest) ← expr n 0 rest
      return (t, ← expect (.mark ")") rest)
    else none
  | n + 1, .word w :: rest =>
    if w = "NOT" then do
      let (t, rest) ← expr n g.notLevel rest
      return (.not t, rest)
    else if w = "CASE" then do
      let (condition, rest) ← expr n 0 (← expect (.word "WHEN") rest)
      let (value, rest) ← expr n 0 (← expect (.word "THEN") rest)
      match expect (.word "ELSE") rest with
      | none => return (.conditional condition value none, ← expect (.word "END") rest)
      | some rest =>
        let (otherwise, rest) ← expr n 0 rest
        return (.conditional condition value (some otherwise), ← expect (.word "END") rest)
    else if w ∈ reserved then none
    else
      match expect (.mark "(") rest with
      | some rest => called n w rest
      | none => if w ∈ constants then some (.literal w, rest) else none

/-- A call behind its opening parenthesis. -/
def called : Nat → String → List Lexeme → Option (Tree × List Lexeme)
  | 0, _, _ => none
  | n + 1, w, rest =>
    if w = "CAST" then do
      let (t, rest) ← expr n 0 rest
      match ← expect (.word "AS") rest with
      | .word type :: rest => return (.cast t type, ← expect (.mark ")") rest)
      | _ => none
    else
      match rest with
      | .mark ")" :: rest => some (.call w [], rest)
      | .mark "*" :: rest => do return (.callAll w, ← expect (.mark ")") rest)
      | .word "DISTINCT" :: rest => do
        let (args, rest) ← items n rest
        return (.callDistinct w args, ← expect (.mark ")") rest)
      | rest => do
        let (args, rest) ← items n rest
        match args, expect (.word "FROM") rest with
        | [t], some rest =>
          let (start, rest) ← expr n 0 rest
          let (length, rest) ← expr n 0 (← expect (.word "FOR") rest)
          return (.call w [t, start, length], ← expect (.mark ")") rest)
        | args, _ => return (.call w args, ← expect (.mark ")") rest)

/-- Trees with commas between them. -/
def items : Nat → List Lexeme → Option (List Tree × List Lexeme)
  | 0, _ => none
  | n + 1, xs => do
    let (t, rest) ← expr n 0 xs
    match expect (.mark ",") rest with
    | none => return ([t], rest)
    | some rest =>
      let (ts, rest) ← items n rest
      return (t :: ts, rest)

/-- A tree of operators that bind at least as strongly as it is said. -/
def expr : Nat → Nat → List Lexeme → Option (Tree × List Lexeme)
  | 0, _, _ => none
  | n + 1, least, xs => do
    let (left, rest) ← operand n xs
    continued n least left rest

/-- The tree with the operators that stand behind it. -/
def continued : Nat → Nat → Tree → List Lexeme → Option (Tree × List Lexeme)
  | 0, _, _, _ => none
  | n + 1, least, left, xs =>
    match suffix? xs with
    | none => some (left, xs)
    | some (s, rest) =>
      if g.level s.name < least then some (left, xs)
      else
        match s with
        | .operator op => do
          let (right, rest) ← expr n (g.rightLevel op) rest
          continued n least (.binary op left right) rest
        | .isNull => continued n least (.isNull left) rest
        | .between => do
          let (low, rest) ← expr n g.lowLevel rest
          let (high, rest) ← expr n (g.level "BETWEEN" + 1) (← expect (.word "AND") rest)
          continued n least (.between left low high) rest
        | .member =>
          match expect (.mark "(") rest with
          | some rest => do
            let (ts, rest) ← items n rest
            continued n least (.member left ts) (← expect (.mark ")") rest)
          | none => do
            let (t, rest) ← operand n rest
            continued n least (.member left [t]) rest

end

/-- The tree of operands with the same operator between them. -/
def chain (op : String) : Tree → List Tree → Tree
  | t, [] => t
  | t, u :: us =>
    if g.groupsRight op then .binary op t (chain op u us) else chain op (.binary op t u) us

/-- The tree that a text is read as. Every step takes a lexeme or is followed by one that does. -/
def parse (d : Dialect) (text : String) : Option Tree := do
  let xs ← lexemes d text
  match ← g.expr (2 * xs.length + 1) 0 xs with
  | (t, []) => return t
  | _ => none

end Grammar

end SqlChain.Syntax
