import Mathlib.Data.Bool.AllAny
import SqlChain.Dialect.Basic
import SqlChain.Proofs.Building

/-!
# Lexemes of an expression

A text is cut into lexemes from left to right with the quotes of its dialect. A lexeme ends where the
next character cannot belong to it, so that it is known one character late. `Lexes` says what a piece
of text adds to the lexemes in front of it, and pieces are put together by `Lexes.append`.
-/

namespace SqlChain.Syntax

inductive Lexeme where
  | word (text : String)
  | number (text : String)
  /-- A string as it is written, with its quotes. -/
  | string (text : String)
  /-- A quoted name, without its quotes. -/
  | name (text : String)
  | mark (text : String)
deriving DecidableEq, Repr

/-- The characters of a lexeme that is not complete yet. -/
inductive Lexer where
  | idle
  | word (chars : List Char)
  | number (chars : List Char)
  | sign (c : Char)
  | name (chars : List Char)
  /-- Behind a closing quote, which the same quote would make a part of the name. -/
  | behindName (chars : List Char)
  | string (chars : List Char)
  /-- Behind a backslash of a string. -/
  | escaped (chars : List Char)
  | behindString (chars : List Char)
deriving DecidableEq, Repr

namespace Lexer

/-- The lexeme that a text would end with here, if it may end here. -/
def flush : Lexer → Option (List Lexeme)
  | .idle => some []
  | .word chars => some [.word (String.ofList chars)]
  | .number chars => some [.number (String.ofList chars)]
  | .sign c => some [.mark (String.singleton c)]
  | .behindName chars => some [.name (String.ofList chars)]
  | .behindString chars => some [.string (String.ofList chars)]
  | .name _ | .string _ | .escaped _ => none

def isWordChar (c : Char) : Bool := c.isAlphanum || c == '_'

/-- The operators of two characters. -/
def doubled : List String := ["<=", ">=", "!=", "<>", "||"]

def comments : List String := ["--", "/*"]

/-- A character behind which nothing of it is left open. -/
def isPunctuation (c : Char) : Bool := c ∈ ['(', ')', ',', '.']

def isSign (c : Char) : Bool := c ∈ ['+', '-', '*', '/', '%', '=', '<', '>', '!', '|']

variable (d : Dialect)

/-- A character that begins a lexeme. -/
def start (c : Char) : Option (Lexer × List Lexeme) :=
  if c = ' ' then some (.idle, [])
  else if c = '\'' then some (.string [c], [])
  else if c = d.openQuote then some (.name [], [])
  else if c.isDigit then some (.number [c], [])
  else if isWordChar c then some (.word [c], [])
  else if isPunctuation c then some (.idle, [.mark (String.singleton c)])
  else if isSign c then some (.sign c, [])
  else none

/-- What there is after lexemes that are complete. -/
def after (lexemes : List Lexeme) (r : Option (Lexer × List Lexeme)) :
    Option (Lexer × List Lexeme) :=
  r.map fun (next, more) => (next, lexemes ++ more)

/-- A character that does not belong to the open lexeme, which is complete therefore. -/
def restart (l : Lexer) (c : Char) : Option (Lexer × List Lexeme) := do
  after (← l.flush) (start d c)

def step : Lexer → Char → Option (Lexer × List Lexeme)
  | .idle, c => start d c
  | .word chars, c =>
    if isWordChar c then some (.word (chars ++ [c]), []) else restart d (.word chars) c
  | .number chars, c =>
    if c.isDigit || c == '.' then some (.number (chars ++ [c]), [])
    else restart d (.number chars) c
  | .sign s, c =>
    let both := String.ofList [s, c]
    if both ∈ comments then none
    else if both ∈ doubled then some (.idle, [.mark both])
    else restart d (.sign s) c
  | .name chars, c =>
    if c = d.closeQuote then some (.behindName chars, []) else some (.name (chars ++ [c]), [])
  | .behindName chars, c =>
    if c = d.closeQuote then some (.name (chars ++ [c]), []) else restart d (.behindName chars) c
  | .string chars, c =>
    if c = '\\' ∧ d.stringEscape = .backslash then some (.escaped (chars ++ [c]), [])
    else if c = '\'' then some (.behindString (chars ++ [c]), [])
    else some (.string (chars ++ [c]), [])
  | .escaped chars, c => some (.string (chars ++ [c]), [])
  | .behindString chars, c =>
    if c = '\'' then some (.string (chars ++ [c]), []) else restart d (.behindString chars) c

def run (l : Lexer) : List Char → Option (Lexer × List Lexeme)
  | [] => some (l, [])
  | c :: cs => do
    let (next, lexemes) ← step d l c
    after lexemes (run next cs)

end Lexer

open Lexer

/-- The lexemes of a text, if it is made of lexemes. -/
def lexemes (d : Dialect) (text : String) : Option (List Lexeme) := do
  let (last, lexemes) ← run d .idle text.toList
  return lexemes ++ (← last.flush)

/-! ## Runs -/

variable {d : Dialect}

theorem Lexer.after_nil (r : Option (Lexer × List Lexeme)) : after [] r = r := by
  cases r <;> rfl

theorem Lexer.after_after (xs ys : List Lexeme) (r : Option (Lexer × List Lexeme)) :
    after xs (after ys r) = after (xs ++ ys) r := by
  cases r <;> simp [after]

theorem Lexer.run_append (l : Lexer) (front back : List Char) :
    run d l (front ++ back) = (run d l front).bind fun (next, lexemes) =>
      after lexemes (run d next back) := by
  induction front generalizing l with
  | nil => exact (after_nil _).symm
  | cons c front ih =>
      rw [List.cons_append, run, run]
      cases step d l c with
      | none => rfl
      | some r =>
          simp only [Option.bind_eq_bind, Option.bind_some, ih]
          cases run d r.1 front <;> simp [after, Function.comp_def]

/-! ## Pieces of a text -/

def Lexer.IsIdle (l : Lexer) : Prop := l = .idle

/-- Whether a piece of punctuation would end the open lexeme. -/
def Lexer.isSettled : Lexer → Bool
  | .idle | .word _ | .number _ | .behindName _ | .behindString _ => true
  | _ => false

def Lexer.IsSettled (l : Lexer) : Prop := l.isSettled = true

/-- From every lexer with `P` the text leads to one with `Q`, and its own lexemes come after those
that were there. -/
def Lexes (d : Dialect) (P : Lexer → Prop) (text : String) (lexemes : List Lexeme)
    (Q : Lexer → Prop) : Prop :=
  ∀ l pending, P l → l.flush = some pending → ∃ next found rest,
    run d l text.toList = some (next, found) ∧ next.flush = some rest ∧
      found ++ rest = pending ++ lexemes ∧ Q next

namespace Lexes

variable {P Q R : Lexer → Prop} {s t : String} {xs ys : List Lexeme}

theorem append (hs : Lexes d P s xs Q) (ht : Lexes d Q t ys R) :
    Lexes d P (s ++ t) (xs ++ ys) R := by
  intro l pending hl hpending
  obtain ⟨next, found, rest, hrun, hrest, hfound, hnext⟩ := hs l pending hl hpending
  obtain ⟨last, more, behind, hmore, hbehind, hall, hlast⟩ := ht next rest hnext hrest
  refine ⟨last, found ++ more, behind, ?_, hbehind, ?_, hlast⟩
  · rw [String.toList_append, run_append, hrun, Option.bind_some]
    dsimp only
    rw [hmore]
    rfl
  · rw [List.append_assoc, hall, ← List.append_assoc, hfound, List.append_assoc]

theorem weaken {P' Q' : Lexer → Prop} (h : Lexes d P s xs Q) (hp : ∀ l, P' l → P l)
    (hq : ∀ l, Q l → Q' l) : Lexes d P' s xs Q' := by
  intro l pending hl hpending
  obtain ⟨next, found, rest, hrun, hrest, hfound, hnext⟩ := h l pending (hp l hl) hpending
  exact ⟨next, found, rest, hrun, hrest, hfound, hq next hnext⟩

/-- What a text is made of that is scanned from its first character on. -/
theorem of_run {next : Lexer} {found rest : List Lexeme}
    (hrun : run d .idle s.toList = some (next, found)) (hrest : next.flush = some rest)
    (hnext : Q next) : Lexes d IsIdle s (found ++ rest) Q := by
  rintro l pending rfl hpending
  cases hpending
  exact ⟨next, found, rest, hrun, hrest, rfl, hnext⟩

end Lexes

theorem Lexer.IsIdle.isSettled {l : Lexer} (h : l.IsIdle) : l.IsSettled := by
  rw [h]
  rfl

/-- The lexemes of a text by itself are those that it adds to others. -/
theorem lexemes_of_lexes {text : String} {xs : List Lexeme}
    (h : Lexes d IsIdle text xs IsSettled) : lexemes d text = some xs := by
  obtain ⟨next, found, rest, hrun, hrest, hfound, _⟩ := h .idle [] rfl rfl
  rw [lexemes, hrun]
  simp [hrest, hfound]

/-! ## Words -/

/-- The characters that end every settled lexeme, whatever the quotes are. -/
def spacing : List Char := [' ', '(', ')', ',']

def quotes : List Char := ['\'', '"', '[', Dialect.grave]

/-- What is relied on in a dialect. -/
structure IsPlain (d : Dialect) : Prop where
  open_mem : d.openQuote ∈ ['"', '[', Dialect.grave]
  close_mem : d.closeQuote ∈ ['"', ']', Dialect.grave]
  escape_eq : ∀ escape ∈ d.quoteEscape, escape.toList = [d.closeQuote, d.closeQuote]
  null_eq : d.nullLiteral = "NULL"
  true_eq : d.trueLiteral = "TRUE"
  false_eq : d.falseLiteral = "FALSE"
  infinity_eq : d.infinityLiteral = "'Infinity'"
  negInfinity_eq : d.negInfinityLiteral = "'-Infinity'"
  nan_eq : d.nanLiteral = "'NaN'"
  timestampFormat_eq : d.timestampFormat = TimePart.universal

theorem isPlain_dialect (b : Backend) : IsPlain b.dialect := by
  cases b <;> constructor <;> decide

theorem step_of_mem_spacing (h : IsPlain d) {l : Lexer} (hl : l.IsSettled) {c : Char}
    (hc : c ∈ spacing) : step d l c = restart d l c := by
  have hall : ∀ c ∈ spacing, isWordChar c = false ∧ (c.isDigit || c == '.') = false ∧ c ≠ '\'' ∧
      c ∉ ['"', ']', Dialect.grave] := List.all_iff_forall_prop.1 (by decide)
  obtain ⟨hword, hnumber, hstring, hclose⟩ := hall c hc
  have hname : c ≠ d.closeQuote := by
    rintro rfl
    exact hclose h.close_mem
  cases l with
  | idle => exact (after_nil _).symm
  | word | number | behindName | behindString => simp [step, hword, hnumber, hstring, hname]
  | sign | name | string | escaped => cases hl

theorem run_of_restart {l : Lexer} {pending : List Lexeme} (hpending : l.flush = some pending)
    {c : Char} (hstep : step d l c = restart d l c) (cs : List Char) :
    run d l (c :: cs) = after pending (run d .idle (c :: cs)) := by
  rw [run, run, hstep, restart, hpending]
  cases hstart : start d c with
  | none => simp [step, hstart, after]
  | some r =>
      simp only [step, hstart, Option.bind_eq_bind, Option.bind_some]
      exact (after_after pending r.2 _).symm

/-- What is scanned from its first character on is scanned alike behind what that character ends. -/
theorem Lexes.behind (h : IsPlain d) {s : String} {xs : List Lexeme} {Q : Lexer → Prop}
    (hs : Lexes d IsIdle s xs Q) {c : Char} (hhead : s.toList.head? = some c)
    (hc : c ∈ spacing) : Lexes d IsSettled s xs Q := by
  obtain ⟨cs, hcs⟩ := List.head?_eq_some_iff.1 hhead
  intro l pending hl hpending
  obtain ⟨next, found, rest, hrun, hrest, hfound, hnext⟩ := hs .idle [] rfl rfl
  refine ⟨next, pending ++ found, rest, ?_, hrest, ?_, hnext⟩
  · rw [hcs] at hrun ⊢
    rw [run_of_restart hpending (step_of_mem_spacing h hl hc), hrun]
    rfl
  · rw [List.append_assoc, hfound, List.nil_append]

/-- Whether no quoted lexeme is open. -/
def Lexer.isUnquoted : Lexer → Bool
  | .idle | .word _ | .number _ | .sign _ => true
  | _ => false

/-- Without quotes, all dialects are alike. -/
theorem step_eq_ansi (h : IsPlain d) {l : Lexer} (hl : l.isUnquoted = true) {c : Char}
    (hc : c ∉ quotes) : step d l c = step .ansi l c := by
  have hopen : c ≠ d.openQuote := by
    rintro rfl
    exact hc (List.mem_cons_of_mem _ h.open_mem)
  have hansi : c ≠ Dialect.ansi.openQuote := by
    rintro rfl
    exact hc (by decide)
  have hstart : start d c = start .ansi c := by
    rw [start, start, if_neg hopen, if_neg hansi]
  cases l with
  | idle => exact hstart
  | word | number | sign => simp only [step, restart, hstart]
  | name | behindName | string | escaped | behindString => cases hl

theorem isUnquoted_of_start {next : Lexer} {c : Char} (hc : c ∉ quotes) {found : List Lexeme}
    (hstart : start .ansi c = some (next, found)) : next.isUnquoted = true := by
  have hstring : c ≠ '\'' := by
    rintro rfl
    exact hc (by decide)
  have hname : c ≠ Dialect.ansi.openQuote := by
    rintro rfl
    exact hc (by decide)
  rw [start, if_neg hstring, if_neg hname] at hstart
  split_ifs at hstart <;> cases hstart <;> rfl

theorem isUnquoted_of_restart {l next : Lexer} {c : Char} (hc : c ∉ quotes) {found : List Lexeme}
    (hrestart : restart .ansi l c = some (next, found)) : next.isUnquoted = true := by
  obtain ⟨pending, _, hrestart⟩ := Option.bind_eq_some_iff.1 hrestart
  obtain ⟨⟨last, more⟩, hstart, heq⟩ := Option.map_eq_some_iff.1 hrestart
  cases heq
  exact isUnquoted_of_start hc hstart

theorem isUnquoted_of_step {l next : Lexer} (hl : l.isUnquoted = true) {c : Char} (hc : c ∉ quotes)
    {found : List Lexeme} (hstep : step .ansi l c = some (next, found)) :
    next.isUnquoted = true := by
  cases l with
  | idle => exact isUnquoted_of_start hc hstep
  | word | number =>
      rw [step] at hstep
      split at hstep
      · cases hstep
        rfl
      · exact isUnquoted_of_restart hc hstep
  | sign =>
      simp only [step] at hstep
      split_ifs at hstep
      · cases hstep
        rfl
      · exact isUnquoted_of_restart hc hstep
  | name | behindName | string | escaped | behindString => cases hl

theorem run_eq_ansi (h : IsPlain d) {l : Lexer} (hl : l.isUnquoted = true) {cs : List Char}
    (hcs : ∀ c ∈ cs, c ∉ quotes) : run d l cs = run .ansi l cs := by
  induction cs generalizing l with
  | nil => rfl
  | cons c cs ih =>
      have hc := hcs c (by simp)
      rw [run, run, step_eq_ansi h hl hc]
      cases hstep : step .ansi l c with
      | none => rfl
      | some r =>
          have hnext := isUnquoted_of_step hl hc hstep
          exact congrArg (after r.2) (ih hnext fun c hmem => hcs c (List.mem_cons_of_mem _ hmem))

/-- Whether a text without quotes is cut into these lexemes, the lexer being left as it is said. -/
def isPhrase (s : String) (xs : List Lexeme) (next : Lexer) : Bool :=
  s.toList.all (fun c => !quotes.contains c) &&
    match run .ansi .idle s.toList with
    | some (last, found) => last == next && next.flush.map (found ++ ·) == some xs
    | none => false

theorem Lexes.phrase (h : IsPlain d) {s : String} {xs : List Lexeme} {next : Lexer}
    (hs : isPhrase s xs next = true) : Lexes d IsIdle s xs (· = next) := by
  obtain ⟨hplain, hs⟩ := Bool.and_eq_true_iff.1 hs
  have hrun : run d .idle s.toList = run .ansi .idle s.toList :=
    run_eq_ansi h rfl (by simpa using hplain)
  split at hs
  · next last found hansi =>
      obtain ⟨hlast, hfound⟩ := Bool.and_eq_true_iff.1 hs
      obtain ⟨rest, hrest, hxs⟩ := Option.map_eq_some_iff.1 (beq_iff_eq.1 hfound)
      cases beq_iff_eq.1 hlast
      rw [← hxs]
      exact .of_run (hrun.trans hansi) hrest rfl
  · cases hs

/-- Whether a text without quotes stands between others and leaves no lexeme open. -/
def isClause (s : String) (xs : List Lexeme) : Bool :=
  s.toList.head?.any spacing.contains && isPhrase s xs .idle

theorem Lexes.clause (h : IsPlain d) {s : String} {xs : List Lexeme} (hs : isClause s xs = true) :
    Lexes d IsSettled s xs IsIdle := by
  obtain ⟨hhead, hs⟩ := Bool.and_eq_true_iff.1 hs
  obtain ⟨c, hc, hmem⟩ := (Option.any_eq_true _ _).1 hhead
  exact (Lexes.phrase h hs).behind h hc (by simpa using hmem)

/-- A minus sign in front of what does not begin with one. -/
theorem Lexes.minus (h : IsPlain d) {s : String} {xs : List Lexeme} {Q : Lexer → Prop}
    (hs : Lexes d IsIdle s xs Q) (hempty : s.toList ≠ []) (hhead : s.toList.head? ≠ some '-') :
    Lexes d IsIdle ("-" ++ s) (.mark "-" :: xs) Q := by
  obtain ⟨c, cs, hcs⟩ := List.exists_cons_of_ne_nil hempty
  have hc : c ≠ '-' := by
    rintro rfl
    exact hhead (by simp [hcs])
  rintro l pending rfl hpending
  cases hpending
  obtain ⟨next, found, rest, hrun, hrest, hfound, hnext⟩ := hs .idle [] rfl rfl
  have hsign : step d .idle '-' = some (.sign '-', []) := by
    rw [step_eq_ansi h rfl (by decide)]
    decide
  have hrestart : step d (.sign '-') c = restart d (.sign '-') c := by
    simp [step, comments, doubled, ← String.toList_inj, hc]
  refine ⟨next, .mark "-" :: found, rest, ?_, hrest, by simp [hfound], hnext⟩
  rw [hcs] at hrun
  rw [String.toList_append, hcs]
  change run d .idle ('-' :: c :: cs) = _
  rw [run, hsign]
  dsimp only [Option.bind_eq_bind, Option.bind_some]
  rw [run_of_restart rfl hrestart, hrun]
  rfl

end SqlChain.Syntax
