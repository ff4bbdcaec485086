import SqlChain.Text.Standing

/-!
# Names as they are quoted in messages

A name is put in double quotes. The quote, the backslash and the usual control characters have
short escapes, and every other character that does not stand by itself is given by its code point.
-/

namespace SqlChain.Text

/-- The text of one character between double quotes. -/
def escaped (c : Char) : List Char :=
  if c = '"' then ['\\', '"']
  else if c = '\\' then ['\\', '\\']
  else if c = '\n' then ['\\', 'n']
  else if c = '\t' then ['\\', 't']
  else if c = '\r' then ['\\', 'r']
  else if c.toNat = 0 then ['\\', '0']
  else if stands c then [c]
  else ['\\', 'u', '\x7b'] ++ Nat.toDigits 16 c.toNat ++ ['\x7d']

def quoted (s : String) : String :=
  String.ofList ('"' :: s.toList.flatMap escaped ++ ['"'])

def quotedList (items : List String) : String :=
  "[" ++ String.intercalate ", " (items.map quoted) ++ "]"

/-- An optional name, with a word that says whether it is there. -/
def quotedOption : Option String → String
  | none => "None"
  | some s => "Some(" ++ quoted s ++ ")"

def quotedOptions (items : List (Option String)) : String :=
  "[" ++ String.intercalate ", " (items.map quotedOption) ++ "]"

end SqlChain.Text
