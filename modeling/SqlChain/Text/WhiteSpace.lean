/-!
# White space

The characters of the Unicode property `White_Space`: the ASCII blanks from tab to carriage return
and the space, the next line, the spaces of all widths, and the line and paragraph separators.
-/

namespace SqlChain.Text

/-- Closed ranges of the code points that are white space. -/
def whiteSpaceRanges : List (Nat × Nat) := [
  (0x9, 0xD), (0x20, 0x20), (0x85, 0x85), (0xA0, 0xA0), (0x1680, 0x1680), (0x2000, 0x200A),
  (0x2028, 0x2029), (0x202F, 0x202F), (0x205F, 0x205F), (0x3000, 0x3000)]

def isWhiteSpace (c : Char) : Bool :=
  whiteSpaceRanges.any fun (first, last) => first ≤ c.toNat && c.toNat ≤ last

/-- The rest of a text behind the white space in front of it. -/
def dropWhiteSpace (cs : List Char) : List Char := cs.dropWhile isWhiteSpace

/-- A character that is not white space stays in front. -/
theorem dropWhiteSpace_cons {c : Char} (h : isWhiteSpace c = false) (cs : List Char) :
    dropWhiteSpace (c :: cs) = c :: cs := by
  simp [dropWhiteSpace, h]

end SqlChain.Text
