import SqlChain.Proofs.Building
import SqlChain.Proofs.Lexical.Quoted
import SqlChain.Proofs.Lexical.Scan

/-!
# Tokens

Quoted names and literals are scanned as a whole, whatever characters they are made from: a quote
within them never ends them.
-/

namespace SqlChain.Lexical

/-- What the scan relies on in a dialect. -/
structure IsReadable (d : Dialect) : Prop extends HasQuotes d where
  escape_eq : ∀ escape ∈ d.quoteEscape, escape.toList = [d.closeQuote, d.closeQuote]
  null_word : isWord 0 d.nullLiteral 0 = true
  true_word : isWord 0 d.trueLiteral 0 = true
  false_word : isWord 0 d.falseLiteral 0 = true
  length_word : isWord 0 d.lengthFunction 0 = true
  infinity_eq : d.infinityLiteral = "'Infinity'"
  negInfinity_eq : d.negInfinityLiteral = "'-Infinity'"
  nan_eq : d.nanLiteral = "'NaN'"
  timestampFormat_eq : d.timestampFormat = TimePart.universal

theorem isReadable_dialect (b : Backend) : IsReadable b.dialect := by
  cases b <;> constructor <;> first | constructor <;> decide | decide

variable {d : Dialect}

/-! ## Within quotes -/

theorem run_flatMap {s : Scan} {f : Char → List Char} (h : ∀ c, run d s (f c) = some s)
    (cs : List Char) : run d s (cs.flatMap f) = some s := by
  induction cs with
  | nil => rfl
  | cons c cs ih => rw [List.flatMap_cons, run_append, h, Option.bind_some, ih]

/-- A closing quote of a string, and a backslash if it has a meaning, never stand alone. -/
theorem run_escapeChar (depth : Nat) (c : Char) :
    run d ⟨.within .string, depth⟩ (Dialect.escapeChar d.stringEscape c) =
      some ⟨.within .string, depth⟩ := by
  cases hescape : d.stringEscape with
  | doubleQuote =>
      by_cases hc : c = '\'' <;> simp [Dialect.escapeChar, hc, run, step, closing, hescape]
  | backslash =>
      by_cases hc : c = '\'' ∨ c = '\\'
      · simp [Dialect.escapeChar, hc, run, step, hescape]
      · have hquote : c ≠ '\'' := fun h => hc (Or.inl h)
        have hslash : c ≠ '\\' := fun h => hc (Or.inr h)
        simp [Dialect.escapeChar, hquote, hslash, run, step, closing]

theorem run_escapeQuote (depth : Nat) (name : List Char) :
    run d ⟨.within .identifier, depth⟩
        (Dialect.escapeQuote d.closeQuote [d.closeQuote, d.closeQuote] name) =
      some ⟨.within .identifier, depth⟩ := by
  apply run_flatMap
  intro c
  by_cases hc : c = d.closeQuote <;> simp [hc, run, step, closing]

def opening (d : Dialect) : Token → Char
  | .string => '\''
  | .identifier => d.openQuote

theorem step_opening (h : HasQuotes d) (last : Option Char) (depth : Nat) (token : Token) :
    step d ⟨.outside last, depth⟩ (opening d token) = some ⟨.within token, depth⟩ := by
  cases token with
  | string => rfl
  | identifier => simp [step, stepOutside, opening, h.open_ne]

theorem step_closing (depth : Nat) (token : Token) :
    step d ⟨.within token, depth⟩ (closing d token) = some ⟨.behind token, depth⟩ := by
  cases token <;> simp [step, closing]

/-- A body that leaves its token open can be quoted. -/
theorem isClosed_quoted (h : HasQuotes d) (token : Token) {body : List Char}
    (hbody : ∀ depth, run d ⟨.within token, depth⟩ body = some ⟨.within token, depth⟩) :
    IsClosed d (String.ofList (opening d token :: body ++ [closing d token])) := by
  rintro place n ⟨last, rfl, _⟩
  refine ⟨.behind token, ?_, rfl⟩
  rw [String.toList_ofList, List.cons_append, run, step_opening h, Option.bind_some, run_append,
    hbody, Option.bind_some, run, step_closing]
  rfl

/-! ## Names -/

theorem isClosed_quoteIdentifier (h : IsReadable d) {name quoted : String}
    (hquoted : d.quoteIdentifier name = .ok quoted) : IsClosed d quoted := by
  have hlist := toList_quoteIdentifier h.escape_eq hquoted
  rw [← String.ofList_toList (s := quoted), hlist]
  exact isClosed_quoted h.toHasQuotes .identifier fun depth => run_escapeQuote depth name.toList

theorem isClosed_quoteQualified (h : IsReadable d) {qualifier : Option String}
    {name quoted : String} (hquoted : d.quoteQualified qualifier name = .ok quoted) :
    IsClosed d quoted := by
  cases qualifier with
  | none => exact isClosed_quoteIdentifier h hquoted
  | some qualifier =>
      obtain ⟨front, hfront, hquoted⟩ := exists_of_bind_eq_ok hquoted
      obtain ⟨back, hback, hquoted⟩ := exists_of_bind_eq_ok hquoted
      cases hquoted
      have hdot := h.word (show isWord 0 "." 0 = true by decide)
      exact (isClosed_quoteIdentifier h hfront).join hdot (isClosed_quoteIdentifier h hback)

/-! ## Literals -/

theorem isClosed_stringLiteral (h : HasQuotes d) (s : String) : IsClosed d (d.stringLiteral s) :=
  isClosed_quoted h .string fun depth => run_flatMap (run_escapeChar depth) s.toList

/-- Nothing in the text has to be escaped between single quotes. -/
def IsClean (s : String) : Prop := ∀ c ∈ s.toList, c ≠ '\'' ∧ c ≠ '\\'

instance (s : String) : Decidable (IsClean s) := List.decidableBAll _ _

theorem run_clean (depth : Nat) {cs : List Char} (h : ∀ c ∈ cs, c ≠ '\'' ∧ c ≠ '\\') :
    run d ⟨.within .string, depth⟩ cs = some ⟨.within .string, depth⟩ := by
  induction cs with
  | nil => rfl
  | cons c cs ih =>
      obtain ⟨hquote, hslash⟩ := h c (by simp)
      have hstep : step d ⟨.within .string, depth⟩ c = some ⟨.within .string, depth⟩ := by
        simp [step, closing, hquote, hslash]
      rw [run, hstep]
      exact ih fun c hmem => h c (List.mem_cons_of_mem _ hmem)

theorem IsClean.isClosed (h : HasQuotes d) {s : String} (hs : IsClean s) :
    IsClosed d ("'" ++ s ++ "'") := by
  have hlist : "'" ++ s ++ "'" = String.ofList ('\'' :: s.toList ++ ['\'']) := by
    apply String.toList_injective
    simp
  rw [hlist]
  exact isClosed_quoted h .string fun depth => run_clean depth hs

/-- The characters of a number without a sign. -/
def IsNumeral (c : Char) : Prop := c.isDigit = true ∨ c = '.'

theorem IsNumeral.not_mem_marks {c : Char} (h : IsNumeral c) : c ∉ '(' :: ')' :: '*' :: marks := by
  intro hc
  have hnone : ('(' :: ')' :: '*' :: marks).all (fun c => !c.isDigit && c != '.') = true := by
    decide
  have hneither := List.all_eq_true.1 hnone c hc
  rcases h with h | rfl
  · simp [h] at hneither
  · simp at hneither

theorem depthAfter_numerals {cs : List Char} (h : ∀ c ∈ cs, IsNumeral c) (depth : Nat) :
    depthAfter depth cs = some depth := by
  induction cs with
  | nil => rfl
  | cons c cs ih =>
      have hc := (h c (by simp)).not_mem_marks
      simp only [List.mem_cons, not_or] at hc
      rw [depthAfter, if_neg hc.2.2.2, if_neg hc.1, if_neg hc.2.1]
      exact ih fun c hmem => h c (List.mem_cons_of_mem _ hmem)

theorem isWord_numerals {s : String} (hne : s.toList ≠ []) (h : ∀ c ∈ s.toList, IsNumeral c) :
    isWord 0 s 0 = true := by
  obtain ⟨c, cs, hcs⟩ := List.exists_cons_of_ne_nil hne
  rw [hcs] at h
  have hc := (h c (by simp)).not_mem_marks
  simp only [List.mem_cons, not_or] at hc
  rw [isWord, hcs]
  simp [depthAfter_numerals h, hc.2.2.1]

/-- A number with or without a sign. -/
theorem isClosed_signed (h : HasQuotes d) {s : String} (hs : isWord 0 s 0 = true) :
    IsClosed d s ∧ IsClosed d ("-" ++ s) := by
  have hword := h.word hs
  refine ⟨hword.isClosed, ?_⟩
  exact (h.sign (c := '-') (by decide)).append hword.isTail

theorem isClosed_toString (h : HasQuotes d) (n : Int) : IsClosed d (toString n) := by
  have hnat : ∀ m : Nat, isWord 0 (toString m) 0 = true := by
    intro m
    have hlist : (toString m).toList = Nat.toDigits 10 m := by simp
    apply isWord_numerals
    · rw [hlist]
      exact List.ne_nil_of_length_pos Nat.length_toDigits_pos
    · intro c hc
      rw [hlist] at hc
      exact Or.inl (Nat.isDigit_of_mem_toDigits (by decide) (by decide) hc)
  cases n with
  | ofNat m => exact (isClosed_signed h (hnat m)).1
  | negSucc m => exact (isClosed_signed h (hnat (m + 1))).2

theorem isNumeral_of_mem_positional {count : Nat} {p : Int} {c : Char}
    (hc : c ∈ Binary64.positional count p) : IsNumeral c := by
  have hdigits : ∀ c ∈ Nat.toDigits 10 count, IsNumeral c := fun c hc =>
    Or.inl (Nat.isDigit_of_mem_toDigits (by decide) (by decide) hc)
  have hzero : IsNumeral '0' := Or.inl (by decide)
  have hpoint : IsNumeral '.' := Or.inr rfl
  rw [Binary64.positional] at hc
  split at hc
  · rcases List.mem_append.1 hc with hc | hc
    · exact hdigits c hc
    · exact (List.mem_replicate.1 hc).2 ▸ hzero
  · simp only at hc
    split at hc
    · rcases List.mem_append.1 hc with hc | hc
      · exact hdigits c (List.mem_of_mem_take hc)
      · rcases List.mem_cons.1 hc with rfl | hc
        · exact hpoint
        · exact hdigits c (List.mem_of_mem_drop hc)
    · simp only [List.mem_cons, List.mem_append, List.mem_replicate] at hc
      rcases hc with rfl | rfl | ⟨_, rfl⟩ | hc
      · exact hzero
      · exact hpoint
      · exact hzero
      · exact hdigits c hc

theorem positional_ne_nil (count : Nat) (p : Int) : Binary64.positional count p ≠ [] := by
  have hpos : 0 < (Nat.toDigits 10 count).length := Nat.length_toDigits_pos
  rw [Binary64.positional]
  split
  · exact List.append_ne_nil_of_left_ne_nil (List.ne_nil_of_length_pos hpos) _
  · simp only
    split <;> simp

theorem isWord_magnitudeText (x : Binary64) : isWord 0 (String.ofList x.magnitudeText) 0 = true := by
  by_cases hzero : x.isZero
  · rw [Binary64.magnitudeText, if_pos hzero]
    decide
  · rw [Binary64.magnitudeText, if_neg hzero]
    apply isWord_numerals
    · rw [String.toList_ofList]
      exact positional_ne_nil _ _
    · intro c hc
      rw [String.toList_ofList] at hc
      exact isNumeral_of_mem_positional hc

theorem isClosed_text (h : HasQuotes d) {x : Binary64} (hnan : x.isNaN = false)
    (hinf : x.isInfinite = false) : IsClosed d x.text := by
  obtain ⟨hplain, hminus⟩ := isClosed_signed h (isWord_magnitudeText x)
  rw [Binary64.text, if_neg (by simp [hnan])]
  simp only [hinf, Bool.false_eq_true, if_false]
  cases x.negative with
  | false => exact hplain
  | true =>
      have hlist : String.ofList (['-'] ++ x.magnitudeText) =
          "-" ++ String.ofList x.magnitudeText := by
        apply String.toList_injective
        simp
      rwa [if_pos rfl, hlist]

theorem isClosed_floatLiteral (h : IsReadable d) (decimalPoint : Bool) (x : Binary64) :
    IsClosed d (d.floatLiteral decimalPoint x) := by
  rw [Dialect.floatLiteral]
  cases hnan : x.isNaN with
  | true =>
      rw [if_pos rfl, h.nan_eq]
      exact IsClean.isClosed h.toHasQuotes (show IsClean "NaN" by decide)
  | false =>
      rw [if_neg Bool.false_ne_true]
      cases hinf : x.isInfinite with
      | true =>
          rw [if_pos rfl]
          split
          · rw [h.negInfinity_eq]
            exact IsClean.isClosed h.toHasQuotes (show IsClean "-Infinity" by decide)
          · rw [h.infinity_eq]
            exact IsClean.isClosed h.toHasQuotes (show IsClean "Infinity" by decide)
      | false =>
          rw [if_neg Bool.false_ne_true]
          have htext := isClosed_text h.toHasQuotes hnan hinf
          split
          · exact htext.append_tail (h.word (by decide)).isTail
          · exact htext

theorem IsClean.append {s t : String} (hs : IsClean s) (ht : IsClean t) : IsClean (s ++ t) := by
  intro c hc
  rw [String.toList_append] at hc
  rcases List.mem_append.1 hc with hc | hc
  · exact hs c hc
  · exact ht c hc

theorem isClean_padded (width n : Nat) : IsClean (Text.padded width n) := by
  have hdigit : ∀ c : Char, c.isDigit = true → c ≠ '\'' ∧ c ≠ '\\' := by
    rintro c hc
    constructor <;> rintro rfl <;> exact absurd hc (by decide)
  intro c hc
  rw [Text.toList_padded] at hc
  rcases List.mem_append.1 hc with hc | hc
  · rw [(List.mem_replicate.1 hc).2]
    decide
  · exact hdigit c (Nat.isDigit_of_mem_toDigits (by decide) (by decide) hc)

theorem isClean_yearText (year : Int) : IsClean (yearText year) := by
  rw [yearText]
  split
  · exact isClean_padded _ _
  · split
    · exact IsClean.append (by decide) (isClean_padded _ _)
    · exact IsClean.append (by decide) (isClean_padded _ _)

theorem isClean_fractionText (nano : Nat) : IsClean (fractionText nano) := by
  have hpoint : IsClean "." := by decide
  rw [fractionText]
  split
  · decide
  · split
    · exact hpoint.append (isClean_padded _ _)
    · split <;> exact hpoint.append (isClean_padded _ _)

theorem isClean_universal (c : Clock) : IsClean (c.format TimePart.universal) := by
  have hdash : IsClean "-" := by decide
  have hcolon : IsClean ":" := by decide
  have hdate := (((isClean_yearText c.date.year).append hdash).append
    (isClean_padded 2 c.date.month)).append hdash |>.append (isClean_padded 2 c.date.day)
  have htime := ((((hdate.append (show IsClean "T" by decide)).append
    (isClean_padded 2 c.hour)).append hcolon).append (isClean_padded 2 c.minute)).append hcolon
  rw [Clock.format_universal]
  exact ((htime.append (isClean_padded 2 c.secondOfMinute)).append
    (isClean_fractionText c.fraction)).append (show IsClean "Z" by decide)

theorem isClosed_literal (h : IsReadable d) (decimalPoint : Bool) (value : Scalar) :
    IsClosed d (d.literal decimalPoint value) := by
  have hword : ∀ s, isWord 0 s 0 = true → IsClosed d s := fun s hs => (h.word hs).isClosed
  cases value with
  | null => exact hword _ h.null_word
  | boolean b =>
      rw [Dialect.literal, Dialect.booleanLiteral]
      split
      · cases b
        · exact hword _ h.false_word
        · exact hword _ h.true_word
      · cases b
        · exact hword "0" (by decide)
        · exact hword "1" (by decide)
  | int64 n =>
      have hn := isClosed_toString h.toHasQuotes n.toInt
      cases decimalPoint with
      | false => simpa [Dialect.literal] using hn
      | true => exact hn.append_tail (h.word (by decide)).isTail
  | float64 x => exact isClosed_floatLiteral h decimalPoint x
  | utf8 s => exact isClosed_stringLiteral h.toHasQuotes s
  | timestamp t =>
      rw [Dialect.literal, h.timestampFormat_eq]
      exact (isClean_universal t.utc).isClosed h.toHasQuotes

end SqlChain.Lexical
