import SqlChain.Json.Number
import SqlChain.Json.Tree

/-!
# Reading JSON

The grammar is strict: a text is one value with nothing but blanks around it, and strings hold no
control characters. Values are refused for halves of surrogate pairs, for numbers that are too
large, and when arrays and objects are nested beyond a limit.
-/

namespace SqlChain

namespace JsonTree

def isBlank (c : Char) : Bool := c == ' ' || c == '\n' || c == '\t' || c == '\r'

def skipBlanks (cs : List Char) : List Char := cs.dropWhile isBlank

def hexValue? (c : Char) : Option Nat :=
  if c.isDigit then some (c.toNat - '0'.toNat)
  else if 'a' ≤ c ∧ c ≤ 'f' then some (c.toNat - 'a'.toNat + 10)
  else if 'A' ≤ c ∧ c ≤ 'F' then some (c.toNat - 'A'.toNat + 10)
  else none

def hexUnit? : List Char → Option (Nat × List Char)
  | a :: b :: c :: d :: cs => do
    let a ← hexValue? a
    let b ← hexValue? b
    let c ← hexValue? c
    let d ← hexValue? d
    return (4096 * a + 256 * b + 16 * c + d, cs)
  | _ => none

def isHighSurrogate (n : Nat) : Bool := 0xD800 ≤ n && n < 0xDC00

def isLowSurrogate (n : Nat) : Bool := 0xDC00 ≤ n && n < 0xE000

/-- The character given by its number, in two halves if it needs them. One half alone is none. -/
def unicodeEscape? (cs : List Char) : Option (Option Char × List Char) := do
  let (high, cs) ← hexUnit? cs
  if isHighSurrogate high then
    match cs with
    | '\\' :: 'u' :: rest =>
      let (low, rest) ← hexUnit? rest
      if isLowSurrogate low then
        return (some (Char.ofNat (0x10000 + 1024 * (high - 0xD800) + (low - 0xDC00))), rest)
      else return (none, cs)
    | _ => return (none, cs)
  else if isLowSurrogate high then return (none, cs)
  else return (some (Char.ofNat high), cs)

/-- The character after a backslash. -/
def escape? : List Char → Option (Option Char × List Char)
  | '"' :: cs => some ('"', cs)
  | '\\' :: cs => some ('\\', cs)
  | '/' :: cs => some ('/', cs)
  | 'b' :: cs => some (Char.ofNat 8, cs)
  | 'f' :: cs => some (Char.ofNat 12, cs)
  | 'n' :: cs => some ('\n', cs)
  | 'r' :: cs => some ('\r', cs)
  | 't' :: cs => some ('\t', cs)
  | 'u' :: cs => unicodeEscape? cs
  | _ => none

/-- The string of these characters, unless one of them is missing. -/
def stringOf? (cs : List (Option Char)) : Option String := (cs.mapM id).map String.ofList

/-- The rest of a string up to its closing quote, `before` being what was read of it, the last
character first. -/
def stringRest? (fuel : Nat) (before : List (Option Char)) (cs : List Char) :
    Option (Option String × List Char) :=
  match fuel, cs with
  | 0, _ => none
  | _, [] => none
  | fuel + 1, c :: cs =>
    if c = '"' then some (stringOf? before.reverse, cs)
    else if c = '\\' then
      match escape? cs with
      | some (c, cs) => stringRest? fuel (c :: before) cs
      | none => none
    else if c.toNat < 0x20 then none
    else stringRest? fuel (some c :: before) cs

/-- The rest after a word. -/
def word? : List Char → List Char → Option (List Char)
  | [], cs => some cs
  | w :: ws, c :: cs => if c = w then word? ws cs else none
  | _ :: _, [] => none

mutual

/-- The tree in front of a text, and the rest of the text. -/
def front? (fuel : Nat) (cs : List Char) : Option (JsonTree × List Char) :=
  match fuel with
  | 0 => none
  | fuel + 1 =>
    match skipBlanks cs with
    | '"' :: cs => (stringRest? fuel [] cs).map fun (s, rest) => (.string s, rest)
    | '[' :: cs =>
      match skipBlanks cs with
      | ']' :: rest => some (.array [], rest)
      | cs => arrayRest? fuel [] cs
    | '\x7b' :: cs =>
      match skipBlanks cs with
      | '\x7d' :: rest => some (.object [], rest)
      | cs => objectRest? fuel [] cs
    | 't' :: cs => (word? ['r', 'u', 'e'] cs).map (.bool true, ·)
    | 'f' :: cs => (word? ['a', 'l', 's', 'e'] cs).map (.bool false, ·)
    | 'n' :: cs => (word? ['u', 'l', 'l'] cs).map (.null, ·)
    | cs => (JsonNumber.read? cs).map fun (n, rest) => (.number n, rest)

/-- The rest of an array that is not empty, `before` being the items read, the last one first. -/
def arrayRest? (fuel : Nat) (before : List JsonTree) (cs : List Char) :
    Option (JsonTree × List Char) :=
  match fuel with
  | 0 => none
  | fuel + 1 =>
    match front? fuel cs with
    | none => none
    | some (item, cs) =>
      match skipBlanks cs with
      | ',' :: cs => arrayRest? fuel (item :: before) cs
      | ']' :: cs => some (.array (item :: before).reverse, cs)
      | _ => none

def objectRest? (fuel : Nat) (before : List (Option String × JsonTree)) (cs : List Char) :
    Option (JsonTree × List Char) :=
  match fuel with
  | 0 => none
  | fuel + 1 =>
    match skipBlanks cs with
    | '"' :: cs =>
      match stringRest? fuel [] cs with
      | none => none
      | some (key, cs) =>
        match skipBlanks cs with
        | ':' :: cs =>
          match front? fuel cs with
          | none => none
          | some (item, cs) =>
            match skipBlanks cs with
            | ',' :: cs => objectRest? fuel ((key, item) :: before) cs
            | '\x7d' :: cs => some (.object ((key, item) :: before).reverse, cs)
            | _ => none
        | _ => none
    | _ => none

end

def read? (s : String) : Option JsonTree :=
  let cs := s.toList
  match front? (2 * cs.length + 2) cs with
  | some (tree, rest) => if (skipBlanks rest).isEmpty then some tree else none
  | none => none

end JsonTree

/-- The value that a text stands for, with at most `depth` arrays and objects around any part. -/
def Json.read? (depth : Nat) (s : String) : Option Json := do
  (← JsonTree.read? s).value? depth

end SqlChain
