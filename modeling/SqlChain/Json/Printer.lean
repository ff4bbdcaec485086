import SqlChain.Binary64.Shortest
import SqlChain.Json.Basic
import SqlChain.Text.Padded

/-!
# Writing JSON

Values are written without blanks. Only quotes, backslashes and control characters are escaped.
-/

namespace SqlChain

namespace JsonNumber

/-- A number. Floats are told from integers by a point. -/
def text : JsonNumber → String
  | .integer n => toString n
  | .float x =>
    if !x.isFinite then "null"
    else if x.text.toList.contains '.' then x.text
    else x.text ++ ".0"

end JsonNumber

namespace Json

def escapedChar (c : Char) : List Char :=
  if c = '"' then ['\\', '"']
  else if c = '\\' then ['\\', '\\']
  else if c = '\n' then ['\\', 'n']
  else if c = '\r' then ['\\', 'r']
  else if c = '\t' then ['\\', 't']
  else if c.toNat = 8 then ['\\', 'b']
  else if c.toNat = 12 then ['\\', 'f']
  else if c.toNat < 0x20 then
    let digits := Nat.toDigits 16 c.toNat
    ['\\', 'u'] ++ List.replicate (4 - digits.length) '0' ++ digits
  else [c]

def stringText (s : String) : String :=
  String.ofList ('"' :: s.toList.flatMap escapedChar ++ ['"'])

mutual

def text : Json → String
  | .null => "null"
  | .bool true => "true"
  | .bool false => "false"
  | .number n => n.text
  | .string s => stringText s
  | .array items => "[" ++ String.intercalate "," (texts items) ++ "]"
  | .object fields => "\x7b" ++ String.intercalate "," (fieldTexts fields) ++ "\x7d"

def texts : List Json → List String
  | [] => []
  | item :: rest => item.text :: texts rest

def fieldTexts : List (String × Json) → List String
  | [] => []
  | (key, value) :: rest => (stringText key ++ ":" ++ value.text) :: fieldTexts rest

end

end Json

end SqlChain
