import SqlChain.Dialect.Literal
import SqlChain.Dialect.Quoting

/-!
# Reading what is quoted

A name or a string that was written between quotes is read back from the front of any text that does
not go on with the closing quote: what stands between the quotes is read one character at a time, and
every character was written so that it is read as itself whatever comes behind it.
-/

namespace SqlChain.Lexical

/-! ## The reader -/

/-- Two characters between quotes that stand for the second of them: the closing quote written
twice, or the mark in front of itself or of the closing quote. -/
def IsPair (close : Char) (mark : Option Char) (c next : Char) : Prop :=
  c = close ∧ next = close ∨ mark = some c ∧ (next = c ∨ next = close)

instance (close : Char) (mark : Option Char) (c next : Char) :
    Decidable (IsPair close mark c next) :=
  inferInstanceAs (Decidable (_ ∨ _))

/-- What is read with one more character in front of it. -/
def put (c : Char) (r : List Char × List Char) : List Char × List Char := (c :: r.1, r.2)

/-- What the characters up to the closing quote stand for, and what there is behind it. A mark that
is not one of a pair has no meaning. -/
def readBody (close : Char) (mark : Option Char) : List Char → Option (List Char × List Char)
  | [] => none
  | [c] => if c = close then some ([], []) else none
  | c :: next :: cs =>
    if IsPair close mark c next then (readBody close mark cs).map (put next)
    else if c = close then some ([], next :: cs)
    else if mark = some c then none
    else (readBody close mark (next :: cs)).map (put c)

/-- What a text in quotes stands for, and what there is behind it. -/
def readQuoted (opening close : Char) (mark : Option Char) (text : String) :
    Option (String × String) :=
  match text.toList with
  | [] => none
  | c :: cs =>
    if c = opening then
      (readBody close mark cs).map fun r => (String.ofList r.1, String.ofList r.2)
    else none

def readName (d : Dialect) : String → Option (String × String) :=
  readQuoted d.openQuote d.closeQuote none

/-- The character that takes the meaning from the next one between single quotes. -/
def mark : StringEscape → Option Char
  | .doubleQuote => none
  | .backslash => some '\\'

def readString (d : Dialect) : String → Option (String × String) :=
  readQuoted '\'' '\'' (mark d.stringEscape)

/-! ## Characters that are read as themselves -/

section

variable {close : Char} {mark : Option Char} {c : Char}

/-- Wherever it stands, the code is read as the character. -/
def IsCode (close : Char) (mark : Option Char) (c : Char) (code : List Char) : Prop :=
  ∀ rest, readBody close mark (code ++ rest) = (readBody close mark rest).map (put c)

theorem IsPair.isCode {next : Char} (h : IsPair close mark c next) :
    IsCode close mark next [c, next] := by
  intro rest
  rw [List.cons_append, List.singleton_append, readBody, if_pos h]

theorem isCode_singleton (hclose : c ≠ close) (hmark : mark ≠ some c) :
    IsCode close mark c [c] := by
  intro rest
  have hpair : ∀ next, ¬ IsPair close mark c next := by
    rintro next (⟨h, -⟩ | ⟨h, -⟩)
    · exact hclose h
    · exact hmark h
  cases rest with
  | nil => simp [readBody, hclose]
  | cons next cs =>
      rw [List.singleton_append, readBody, if_neg (hpair next), if_neg hclose, if_neg hmark]

theorem readBody_close {rest : List Char} (hmark : mark ≠ some close)
    (hrest : rest.head? ≠ some close) : readBody close mark (close :: rest) = some ([], rest) := by
  cases rest with
  | nil => simp [readBody]
  | cons next cs =>
      have hnext : next ≠ close := fun h => hrest (by rw [h]; rfl)
      have hpair : ¬ IsPair close mark close next := by
        rintro (⟨-, h⟩ | ⟨h, -⟩)
        · exact hnext h
        · exact hmark h
      rw [readBody, if_neg hpair, if_pos rfl]

theorem readBody_flatMap {code : Char → List Char} (hcode : ∀ c, IsCode close mark c (code c))
    (cs rest : List Char) :
    readBody close mark (cs.flatMap code ++ rest) =
      (readBody close mark rest).map fun r => (cs ++ r.1, r.2) := by
  induction cs with
  | nil => simp
  | cons c cs ih =>
      rw [List.flatMap_cons, List.append_assoc, hcode c, ih, Option.map_map]
      rfl

/-- Whatever comes behind the quotes but one more of them. -/
theorem readQuoted_append {opening : Char} {code : Char → List Char}
    (hcode : ∀ c, IsCode close mark c (code c)) (hmark : mark ≠ some close) {cs : List Char}
    {text rest : String} (htext : text.toList = opening :: (cs.flatMap code ++ [close]))
    (hrest : rest.toList.head? ≠ some close) :
    readQuoted opening close mark (text ++ rest) = some (String.ofList cs, rest) := by
  have hall : (text ++ rest).toList =
      opening :: (cs.flatMap code ++ close :: rest.toList) := by
    rw [String.toList_append, htext]
    simp
  have hbody : readBody close mark (cs.flatMap code ++ close :: rest.toList) =
      some (cs, rest.toList) := by
    rw [readBody_flatMap hcode, readBody_close hmark hrest]
    simp
  simp only [readQuoted, hall, hbody, if_true, Option.map_some, String.ofList_toList]

end

/-! ## Names -/

variable {d : Dialect}

/-- A closing quote within a name is written twice, if it can be written at all. -/
def DoublesQuote (d : Dialect) : Prop :=
  ∀ escape ∈ d.quoteEscape, escape.toList = [d.closeQuote, d.closeQuote]

instance : Decidable (DoublesQuote d) :=
  inferInstanceAs (Decidable (∀ escape ∈ d.quoteEscape, _))

theorem toList_quoteIdentifier (h : DoublesQuote d) {name quoted : String}
    (hquoted : d.quoteIdentifier name = .ok quoted) :
    quoted.toList = d.openQuote ::
      (Dialect.escapeQuote d.closeQuote [d.closeQuote, d.closeQuote] name.toList ++
        [d.closeQuote]) := by
  rw [Dialect.quoteIdentifier] at hquoted
  split at hquoted
  · split at hquoted
    · next escape hescape =>
        cases hquoted
        simp [h escape hescape]
    · cases hquoted
  · next hname =>
      cases hquoted
      simp [Dialect.escapeQuote_eq_self hname]

theorem isCode_escapeQuote (close c : Char) :
    IsCode close none c (if c = close then [close, close] else [c]) := by
  split
  · next hc =>
      subst hc
      exact IsPair.isCode (.inl ⟨rfl, rfl⟩)
  · next hc => exact isCode_singleton hc nofun

theorem readName_quoteIdentifier (h : DoublesQuote d) {name quoted rest : String}
    (hquoted : d.quoteIdentifier name = .ok quoted)
    (hrest : rest.toList.head? ≠ some d.closeQuote) :
    readName d (quoted ++ rest) = some (name, rest) := by
  have hlist := toList_quoteIdentifier h hquoted
  rw [Dialect.escapeQuote] at hlist
  rw [readName, readQuoted_append (isCode_escapeQuote d.closeQuote) (by simp) hlist hrest,
    String.ofList_toList]

/-- Only a closing quote that cannot be written keeps a name from being quoted. -/
theorem quoteIdentifier_eq_error_iff {name : String} {e : Error} :
    d.quoteIdentifier name = .error e ↔
      d.closeQuote ∈ name.toList ∧ d.quoteEscape = none ∧
        e = .invalidIdentifier name d.closeQuote d.name := by
  rw [Dialect.quoteIdentifier]
  by_cases hname : d.closeQuote ∈ name.toList
  · cases hescape : d.quoteEscape <;> simp [hname, eq_comm]
  · simp [hname]

/-! ## Strings -/

theorem isCode_escapeChar (escape : StringEscape) (c : Char) :
    IsCode '\'' (mark escape) c (Dialect.escapeChar escape c) := by
  cases escape with
  | doubleQuote => exact isCode_escapeQuote '\'' c
  | backslash =>
      by_cases hc : c = '\'' ∨ c = '\\'
      · rw [Dialect.escapeChar, if_pos hc]
        exact IsPair.isCode (.inr ⟨rfl, hc.symm⟩)
      · have hquote : c ≠ '\'' := fun h => hc (.inl h)
        have hslash : mark .backslash ≠ some c := fun h => hc (.inr (Option.some.inj h).symm)
        rw [Dialect.escapeChar, if_neg hc]
        exact isCode_singleton hquote hslash

theorem readString_stringLiteral (d : Dialect) (s : String) {rest : String}
    (hrest : rest.toList.head? ≠ some '\'') :
    readString d (d.stringLiteral s ++ rest) = some (s, rest) := by
  have hlist : (d.stringLiteral s).toList =
      '\'' :: (s.toList.flatMap (Dialect.escapeChar d.stringEscape) ++ ['\'']) := by
    simp [Dialect.stringLiteral]
  have hmark : mark d.stringEscape ≠ some '\'' := by
    cases d.stringEscape <;> decide
  rw [readString, readQuoted_append (isCode_escapeChar d.stringEscape) hmark hlist hrest,
    String.ofList_toList]

/-! ## Names and strings -/

theorem doublesQuote_dialect (b : Backend) : DoublesQuote b.dialect := by
  cases b <;> decide

/-- What is quoted is read back with all that comes behind it, so that it determines what was
quoted. -/
theorem read_quoted (d : Dialect) :
    (DoublesQuote d →
      (∀ name, d.quoteEscape ≠ none ∨ d.closeQuote ∉ name.toList →
        ∃ quoted, d.quoteIdentifier name = .ok quoted ∧
          ∀ rest, rest.toList.head? ≠ some d.closeQuote →
            readName d (quoted ++ rest) = some (name, rest)) ∧
      ∀ name other quoted, d.quoteIdentifier name = .ok quoted →
        d.quoteIdentifier other = .ok quoted → name = other) ∧
    (∀ name e, d.quoteIdentifier name = .error e ↔
      d.closeQuote ∈ name.toList ∧ d.quoteEscape = none ∧
        e = .invalidIdentifier name d.closeQuote d.name) ∧
    (∀ decimalPoint s rest, rest.toList.head? ≠ some '\'' →
      readString d (d.literal decimalPoint (.utf8 s) ++ rest) = some (s, rest)) ∧
    (∀ decimalPoint s t, d.literal decimalPoint (.utf8 s) = d.literal decimalPoint (.utf8 t) →
      s = t) ∧
    ∀ b : Backend, DoublesQuote b.dialect ∧ (b.dialect.quoteEscape = none ↔ b = .odbc) := by
  have hempty : ∀ close : Char, ("" : String).toList.head? ≠ some close := fun _ => nofun
  refine ⟨fun h => ⟨fun name hname => ?_, ?_⟩, fun name e => ?_, ?_, ?_, ?_⟩
  · cases hquoted : d.quoteIdentifier name with
    | ok quoted => exact ⟨quoted, rfl, fun rest hrest => readName_quoteIdentifier h hquoted hrest⟩
    | error e =>
        obtain ⟨hmem, hescape, -⟩ := quoteIdentifier_eq_error_iff.1 hquoted
        exact absurd hname (by simp [hmem, hescape])
  · intro name other quoted hname hother
    have hread := readName_quoteIdentifier h hname (hempty _)
    rw [readName_quoteIdentifier h hother (hempty _)] at hread
    exact (congrArg Prod.fst (Option.some.inj hread)).symm
  · exact quoteIdentifier_eq_error_iff
  · exact fun _ s _ hrest => readString_stringLiteral d s hrest
  · intro _ s t hsame
    have hread := readString_stringLiteral d s (hempty _)
    rw [show d.stringLiteral s = d.stringLiteral t from hsame,
      readString_stringLiteral d t (hempty _)] at hread
    exact (congrArg Prod.fst (Option.some.inj hread)).symm
  · exact fun b => ⟨doublesQuote_dialect b, by cases b <;> decide⟩

/-- Quotes and backslashes next to the delimiters, and a name that has no spelling. -/
theorem read_quoted_delimiters :
    readName .sqlServer ("[]]]]]" ++ " AS [b]") = some ("]]", " AS [b]") ∧
      readString .mysql ("'it\\'s \\\\'" ++ ", x") = some ("it's \\", ", x") ∧
        Dialect.odbc.quoteIdentifier "a\"" = .error (.invalidIdentifier "a\"" '"' "odbc") := by
  obtain ⟨hname, -⟩ := (read_quoted .sqlServer).1 (by decide)
  obtain ⟨quoted, hquoted, hread⟩ := hname "]]" (.inl (by decide))
  obtain ⟨-, -, hstring, -⟩ := read_quoted .mysql
  obtain ⟨-, hfails, -⟩ := read_quoted .odbc
  refine ⟨?_, ?_, ?_⟩
  · cases hquoted
    exact hread " AS [b]" (by decide)
  · exact hstring false "it's \\" ", x" (by decide)
  · exact (hfails _ _).2 ⟨by decide, rfl, rfl⟩

end SqlChain.Lexical
