import SqlChain.Proofs.Lexical.Token
import SqlChain.Proofs.Syntax.Lexer

/-!
# Lexemes of names and literals

A quoted name is one lexeme and stands for the name without its quotes. A literal is one lexeme as it
is written, but for a number with a sign.
-/

namespace SqlChain.Syntax

open Lexer

variable {d : Dialect}

theorem start_of_mem_quotes (h : IsPlain d) : start d d.openQuote = some (.name [], []) := by
  have hall : ∀ q ∈ ['"', '[', Dialect.grave], q ≠ ' ' ∧ q ≠ '\'' :=
    List.all_iff_forall_prop.1 (by decide)
  obtain ⟨hspace, hstring⟩ := hall _ h.open_mem
  rw [start, if_neg hspace, if_neg hstring, if_pos rfl]

/-! ## Names -/

/-- Behind a name. -/
def Lexer.IsNamed (l : Lexer) : Prop := ∃ chars, l = .behindName chars

theorem Lexer.IsNamed.isSettled {l : Lexer} (h : l.IsNamed) : l.IsSettled := by
  obtain ⟨chars, rfl⟩ := h
  rfl

theorem run_escapeQuote (chars name : List Char) :
    run d (.name chars) (Dialect.escapeQuote d.closeQuote [d.closeQuote, d.closeQuote] name) =
      some (.name (chars ++ name), []) := by
  induction name generalizing chars with
  | nil => simp [Dialect.escapeQuote, run]
  | cons c cs ih =>
      have hcons : Dialect.escapeQuote d.closeQuote [d.closeQuote, d.closeQuote] (c :: cs) =
          (if c = d.closeQuote then [d.closeQuote, d.closeQuote] else [c]) ++
            Dialect.escapeQuote d.closeQuote [d.closeQuote, d.closeQuote] cs := rfl
      have hfirst : run d (.name chars)
          (if c = d.closeQuote then [d.closeQuote, d.closeQuote] else [c]) =
            some (.name (chars ++ [c]), []) := by
        by_cases hc : c = d.closeQuote <;> simp [hc, run, step, after]
      rw [hcons, run_append, hfirst, Option.bind_some]
      dsimp only
      rw [after_nil, ih, List.append_assoc, List.singleton_append]

theorem lexes_quoteIdentifier (h : IsPlain d) {name quoted : String}
    (hquoted : d.quoteIdentifier name = .ok quoted) :
    Lexes d IsIdle quoted [.name name] IsNamed := by
  have hlist := Lexical.toList_quoteIdentifier h.escape_eq hquoted
  have hrun : run d .idle quoted.toList = some (.behindName name.toList, []) := by
    rw [hlist, run, step, start_of_mem_quotes h, Option.bind_eq_bind, Option.bind_some]
    dsimp only
    rw [run_append, run_escapeQuote]
    simp [run, step, after]
  have hflush : flush (.behindName name.toList) = some [.name name] := by simp [flush]
  exact .of_run hrun hflush ⟨_, rfl⟩

/-- The lexemes of a column behind the table that it belongs to, if one is given. -/
def columnLexemes (qualifier : Option String) (name : String) : List Lexeme :=
  match qualifier with
  | none => [.name name]
  | some qualifier => [.name qualifier, .mark ".", .name name]

theorem lexes_point (h : IsPlain d) : Lexes d IsNamed "." [.mark "."] IsIdle := by
  have hclose : '.' ≠ d.closeQuote := by
    intro hpoint
    exact absurd h.close_mem (by rw [← hpoint]; decide)
  have hidle : run d .idle ['.'] = some (.idle, [.mark "."]) := by
    rw [run_eq_ansi h rfl (List.all_iff_forall_prop.1 (by decide))]
    decide
  rintro l pending ⟨chars, rfl⟩ hpending
  have hrestart : step d (.behindName chars) '.' = restart d (.behindName chars) '.' := by
    rw [step, if_neg hclose]
  refine ⟨.idle, pending ++ [.mark "."], [], ?_, rfl, by simp, rfl⟩
  change run d (.behindName chars) ['.'] = _
  rw [run_of_restart hpending hrestart, hidle]
  rfl

theorem lexes_quoteQualified (h : IsPlain d) {qualifier : Option String} {name quoted : String}
    (hquoted : d.quoteQualified qualifier name = .ok quoted) :
    Lexes d IsIdle quoted (columnLexemes qualifier name) IsNamed := by
  cases qualifier with
  | none => exact lexes_quoteIdentifier h hquoted
  | some qualifier =>
      obtain ⟨front, hfront, hquoted⟩ := exists_of_bind_eq_ok hquoted
      obtain ⟨back, hback, hquoted⟩ := exists_of_bind_eq_ok hquoted
      cases hquoted
      exact ((lexes_quoteIdentifier h hfront).append (lexes_point h)).append
        (lexes_quoteIdentifier h hback)

/-! ## Strings -/

theorem run_flatMap {f : Char → List Char}
    (h : ∀ chars c, run d (.string chars) (f c) = some (.string (chars ++ f c), []))
    (chars cs : List Char) :
    run d (.string chars) (cs.flatMap f) = some (.string (chars ++ cs.flatMap f), []) := by
  induction cs generalizing chars with
  | nil => simp [run]
  | cons c cs ih =>
      rw [List.flatMap_cons, run_append, h, Option.bind_some]
      dsimp only
      rw [after_nil, ih, List.append_assoc]

theorem run_escapeChar (chars : List Char) (c : Char) :
    run d (.string chars) (Dialect.escapeChar d.stringEscape c) =
      some (.string (chars ++ Dialect.escapeChar d.stringEscape c), []) := by
  cases hescape : d.stringEscape with
  | doubleQuote =>
      by_cases hc : c = '\'' <;> simp [Dialect.escapeChar, hc, run, step, after, hescape]
  | backslash =>
      by_cases hc : c = '\'' ∨ c = '\\'
      · simp [Dialect.escapeChar, hc, run, step, after, hescape]
      · have hquote : c ≠ '\'' := fun h => hc (Or.inl h)
        have hslash : c ≠ '\\' := fun h => hc (Or.inr h)
        simp [Dialect.escapeChar, hquote, hslash, run, step, after]

/-- A body that leaves its string open can be quoted. -/
theorem lexes_quoted {s : String} (body : List Char) (hs : s.toList = '\'' :: body ++ ['\''])
    (hbody : run d (.string ['\'']) body = some (.string ('\'' :: body), [])) :
    Lexes d IsIdle s [.string s] IsSettled := by
  have hrun : run d .idle s.toList = some (.behindString s.toList, []) := by
    have hopen : step d .idle '\'' = some (.string ['\''], []) := rfl
    rw [hs, List.cons_append, run, hopen, Option.bind_eq_bind, Option.bind_some]
    dsimp only
    rw [run_append, hbody]
    simp [run, step, after]
  have hflush : flush (.behindString s.toList) = some [.string s] := by simp [flush]
  exact .of_run hrun hflush rfl

theorem lexes_stringLiteral (s : String) :
    Lexes d IsIdle (d.stringLiteral s) [.string (d.stringLiteral s)] IsSettled :=
  lexes_quoted _ (by simp [Dialect.stringLiteral]) (run_flatMap run_escapeChar ['\''] s.toList)

theorem lexes_clean {s : String} (hs : Lexical.IsClean s) :
    Lexes d IsIdle ("'" ++ s ++ "'") [.string ("'" ++ s ++ "'")] IsSettled := by
  have hrun : ∀ chars cs : List Char, (∀ c ∈ cs, c ≠ '\'' ∧ c ≠ '\\') →
      run d (.string chars) cs = some (.string (chars ++ cs), []) := by
    intro chars cs hcs
    induction cs generalizing chars with
    | nil => simp [run]
    | cons c cs ih =>
        obtain ⟨hquote, hslash⟩ := hcs c (by simp)
        rw [run, step, if_neg (by simp [hslash]), if_neg hquote, Option.bind_eq_bind,
          Option.bind_some]
        dsimp only
        rw [after_nil, ih _ fun c hmem => hcs c (List.mem_cons_of_mem _ hmem), List.append_assoc]
        rfl
  exact lexes_quoted s.toList (by simp) (hrun ['\''] s.toList hs)

/-! ## Numbers -/

/-- A number as it is written without a sign. -/
def IsUnsigned (s : String) : Prop :=
  ∃ c cs, s.toList = c :: cs ∧ c.isDigit = true ∧ ∀ x ∈ cs, Lexical.IsNumeral x

def IsSigned (s : String) : Prop := IsUnsigned s ∨ ∃ t, s = "-" ++ t ∧ IsUnsigned t

theorem IsUnsigned.point {s : String} (h : IsUnsigned s) : IsUnsigned (s ++ ".0") := by
  obtain ⟨c, cs, hcs, hc, hdigits⟩ := h
  refine ⟨c, cs ++ ['.', '0'], by simp [hcs], hc, List.forall_mem_append.2 ⟨hdigits, ?_⟩⟩
  simp [Lexical.IsNumeral]

theorem IsSigned.point {s : String} (h : IsSigned s) : IsSigned (s ++ ".0") := by
  rcases h with h | ⟨t, rfl, h⟩
  · exact .inl h.point
  · exact .inr ⟨t ++ ".0", String.append_assoc, h.point⟩

theorem isUnsigned_of_toDigits {s : String} {n : Nat} (h : s.toList = Nat.toDigits 10 n) :
    IsUnsigned s := by
  have hdigits : ∀ c ∈ Nat.toDigits 10 n, c.isDigit = true := fun c hc =>
    Nat.isDigit_of_mem_toDigits (by decide) (by decide) hc
  obtain ⟨c, cs, hcs⟩ := List.exists_cons_of_ne_nil
    (List.ne_nil_of_length_pos (Nat.length_toDigits_pos (b := 10) (n := n)))
  rw [hcs] at h hdigits
  exact ⟨c, cs, h, hdigits c (by simp), fun x hx => .inl (hdigits x (List.mem_cons_of_mem _ hx))⟩

theorem isSigned_toString (n : Int) : IsSigned (toString n) := by
  have hnat : ∀ m : Nat, IsUnsigned (toString m) := fun m =>
    isUnsigned_of_toDigits (n := m) (by simp)
  cases n with
  | ofNat m => exact .inl (hnat m)
  | negSucc m => exact .inr ⟨_, rfl, hnat (m + 1)⟩

theorem isDigit_of_head?_positional {count : Nat} {p : Int} {c : Char}
    (hc : (Binary64.positional count p).head? = some c) : c.isDigit = true := by
  have hdigits : ∀ c ∈ Nat.toDigits 10 count, c.isDigit = true := fun c hc =>
    Nat.isDigit_of_mem_toDigits (by decide) (by decide) hc
  obtain ⟨first, rest, hfirst⟩ := List.exists_cons_of_ne_nil
    (List.ne_nil_of_length_pos (Nat.length_toDigits_pos (b := 10) (n := count)))
  have hdigit := hdigits first (by simp [hfirst])
  simp only [Binary64.positional, hfirst] at hc
  split at hc
  · cases hc
    exact hdigit
  · split at hc
    · next hplaces =>
        obtain ⟨k, hk⟩ := Nat.exists_eq_succ_of_ne_zero (Nat.sub_ne_zero_of_lt hplaces)
        rw [hk] at hc
        cases hc
        exact hdigit
    · cases hc
      decide

theorem isUnsigned_positional (count : Nat) (p : Int) :
    IsUnsigned (String.ofList (Binary64.positional count p)) := by
  obtain ⟨c, cs, hcs⟩ := List.exists_cons_of_ne_nil (Lexical.positional_ne_nil count p)
  refine ⟨c, cs, by simp [hcs], isDigit_of_head?_positional (by rw [hcs]; rfl), fun x hx => ?_⟩
  exact @Lexical.isNumeral_of_mem_positional count p x
    (by rw [hcs]; exact List.mem_cons_of_mem _ hx)

theorem isSigned_text {x : Binary64} (hnan : x.isNaN = false) (hinf : x.isInfinite = false) :
    IsSigned x.text := by
  have hmagnitude : IsUnsigned (String.ofList x.magnitudeText) := by
    rw [Binary64.magnitudeText]
    split
    · exact ⟨'0', [], rfl, by decide, by simp⟩
    · exact isUnsigned_positional _ _
  rw [Binary64.text, if_neg (by simp [hnan])]
  simp only [hinf, Bool.false_eq_true, if_false]
  cases x.negative with
  | false => exact .inl hmagnitude
  | true =>
      refine .inr ⟨String.ofList x.magnitudeText, ?_, hmagnitude⟩
      apply String.toList_injective
      simp

theorem lexes_unsigned (h : IsPlain d) {s : String} (hs : IsUnsigned s) :
    Lexes d IsIdle s [.number s] IsSettled := by
  obtain ⟨c, cs, hcs, hc, hdigits⟩ := hs
  have hstart : start d c = some (.number [c], []) := by
    have hdistinct : ∀ x ∈ ' ' :: quotes, x.isDigit = false :=
      List.all_iff_forall_prop.1 (by decide)
    have hne : ∀ x ∈ ' ' :: quotes, c ≠ x := by
      rintro x hx rfl
      rw [hdistinct c hx] at hc
      cases hc
    rw [start, if_neg (hne ' ' (by simp)), if_neg (hne '\'' (by simp [quotes])),
      if_neg (hne _ (List.mem_cons_of_mem _ (List.mem_cons_of_mem _ h.open_mem))), if_pos hc]
  have hrun : ∀ chars rest : List Char, (∀ x ∈ rest, Lexical.IsNumeral x) →
      run d (.number chars) rest = some (.number (chars ++ rest), []) := by
    intro chars rest hrest
    induction rest generalizing chars with
    | nil => simp [run]
    | cons x rest ih =>
        have hx : (x.isDigit || x == '.') = true := by
          simpa [Lexical.IsNumeral] using hrest x (by simp)
        rw [run, step, if_pos hx, Option.bind_eq_bind, Option.bind_some]
        dsimp only
        rw [after_nil, ih _ fun y hy => hrest y (List.mem_cons_of_mem _ hy), List.append_assoc]
        rfl
  have hall : run d .idle s.toList = some (.number s.toList, []) := by
    rw [hcs, run, step, hstart, Option.bind_eq_bind, Option.bind_some]
    dsimp only
    rw [after_nil, hrun _ _ hdigits]
    rfl
  have hflush : flush (.number s.toList) = some [.number s] := by simp [flush]
  exact .of_run hall hflush rfl

/-! ## Literals -/

/-- The lexemes of a literal as it is written. -/
inductive IsLiteral (text : String) : List Lexeme → Prop
  | word (h : text ∈ ["NULL", "TRUE", "FALSE"]) : IsLiteral text [.word text]
  | number (h : text.toList.head? ≠ some '-') : IsLiteral text [.number text]
  | negative {s : String} (h : text = "-" ++ s) : IsLiteral text [.mark "-", .number s]
  | string (h : text.toList.head? ≠ some '-') : IsLiteral text [.string text]

def LexesLiteral (d : Dialect) (text : String) : Prop :=
  ∃ xs, Lexes d IsIdle text xs IsSettled ∧ IsLiteral text xs

theorem lexesLiteral_signed (h : IsPlain d) {s : String} (hs : IsSigned s) : LexesLiteral d s := by
  have hhead : ∀ {s : String}, IsUnsigned s → s.toList ≠ [] ∧ s.toList.head? ≠ some '-' := by
    rintro s ⟨c, cs, hcs, hc, _⟩
    rw [hcs]
    refine ⟨by simp, ?_⟩
    rintro ⟨⟩
    cases hc
  rcases hs with hs | ⟨t, rfl, ht⟩
  · exact ⟨_, lexes_unsigned h hs, .number (hhead hs).2⟩
  · exact ⟨_, (lexes_unsigned h ht).minus h (hhead ht).1 (hhead ht).2, .negative rfl⟩

theorem lexesLiteral_word (h : IsPlain d) {s : String} (hs : s ∈ ["NULL", "TRUE", "FALSE"]) :
    LexesLiteral d s := by
  have hphrase : ∀ s ∈ ["NULL", "TRUE", "FALSE"], isPhrase s [.word s] (.word s.toList) = true := by
    decide
  refine ⟨_, (Lexes.phrase h (hphrase s hs)).weaken (fun _ hl => hl) ?_, .word hs⟩
  rintro _ rfl
  rfl

theorem lexesLiteral_clean {s : String} (hs : Lexical.IsClean s) :
    LexesLiteral d ("'" ++ s ++ "'") :=
  ⟨_, lexes_clean hs, .string (by simp)⟩

theorem lexesLiteral_floatLiteral (h : IsPlain d) (decimalPoint : Bool) (x : Binary64) :
    LexesLiteral d (d.floatLiteral decimalPoint x) := by
  rw [Dialect.floatLiteral]
  cases hnan : x.isNaN with
  | true =>
      rw [if_pos rfl, h.nan_eq]
      exact lexesLiteral_clean (s := "NaN") (by decide)
  | false =>
      rw [if_neg Bool.false_ne_true]
      cases hinf : x.isInfinite with
      | true =>
          rw [if_pos rfl]
          split
          · rw [h.negInfinity_eq]
            exact lexesLiteral_clean (s := "-Infinity") (by decide)
          · rw [h.infinity_eq]
            exact lexesLiteral_clean (s := "Infinity") (by decide)
      | false =>
          rw [if_neg Bool.false_ne_true]
          have htext := isSigned_text hnan hinf
          split
          · exact lexesLiteral_signed h htext.point
          · exact lexesLiteral_signed h htext

theorem lexesLiteral_literal (h : IsPlain d) (decimalPoint : Bool) (value : Scalar) :
    LexesLiteral d (d.literal decimalPoint value) := by
  cases value with
  | null => exact lexesLiteral_word h (by rw [Dialect.literal, h.null_eq]; decide)
  | boolean b =>
      rw [Dialect.literal, Dialect.booleanLiteral]
      split
      · refine lexesLiteral_word h ?_
        cases b <;> simp [h.true_eq, h.false_eq]
      · refine lexesLiteral_signed h (.inl ?_)
        cases b
        · exact ⟨'0', [], rfl, by decide, by simp⟩
        · exact ⟨'1', [], rfl, by decide, by simp⟩
  | int64 n =>
      have hn := isSigned_toString n.toInt
      refine lexesLiteral_signed h ?_
      cases decimalPoint with
      | false => simpa [Dialect.literal] using hn
      | true => exact hn.point
  | float64 x => exact lexesLiteral_floatLiteral h decimalPoint x
  | utf8 s =>
      exact ⟨_, lexes_stringLiteral s, .string (by simp [Dialect.literal, Dialect.stringLiteral])⟩
  | timestamp t =>
      rw [Dialect.literal, h.timestampFormat_eq]
      exact lexesLiteral_clean (Lexical.isClean_universal t.utc)

end SqlChain.Syntax
