import Mathlib.Logic.Basic
import SqlChain.Dialect.Basic

/-!
# Scanning a statement

A statement is read from left to right with the quotes of its dialect. Outside of quotes the
parentheses are counted, and the scan fails at a parenthesis that was not opened and at the start
of a comment. `Scans` says how a piece of text moves the scan on, and the pieces of a statement are
put together by `Scans.append`.
-/

namespace SqlChain.Lexical

inductive Token where
  | string | identifier
deriving DecidableEq, Repr

/-- Where a scan stands between two characters. -/
inductive Place where
  /-- Outside of quotes, behind this character if it was outside as well. -/
  | outside (last : Option Char)
  | within (token : Token)
  /-- Behind a backslash of a string. -/
  | escaped
  /-- Behind a closing quote, which the same quote would make a part of the token. -/
  | behind (token : Token)
deriving DecidableEq, Repr

structure Scan where
  place : Place
  depth : Nat
deriving DecidableEq, Repr

def closing (d : Dialect) : Token → Char
  | .string => '\''
  | .identifier => d.closeQuote

def opensComment (last : Option Char) (c : Char) : Prop :=
  (last = some '-' ∧ c = '-') ∨ (last = some '/' ∧ c = '*')

instance (last : Option Char) (c : Char) : Decidable (opensComment last c) :=
  inferInstanceAs (Decidable (_ ∨ _))

def stepOutside (d : Dialect) (last : Option Char) (depth : Nat) (c : Char) : Option Scan :=
  if c = '\'' then some ⟨.within .string, depth⟩
  else if c = d.openQuote then some ⟨.within .identifier, depth⟩
  else if opensComment last c then none
  else if c = '(' then some ⟨.outside (some c), depth + 1⟩
  else if c = ')' then if depth = 0 then none else some ⟨.outside (some c), depth - 1⟩
  else some ⟨.outside (some c), depth⟩

def step (d : Dialect) (s : Scan) (c : Char) : Option Scan :=
  match s.place with
  | .outside last => stepOutside d last s.depth c
  | .within token =>
    if c = '\\' ∧ token = .string ∧ d.stringEscape = .backslash then some ⟨.escaped, s.depth⟩
    else if c = closing d token then some ⟨.behind token, s.depth⟩
    else some s
  | .escaped => some ⟨.within .string, s.depth⟩
  | .behind token =>
    if c = closing d token then some ⟨.within token, s.depth⟩ else stepOutside d none s.depth c

/-- The scan of further characters, which fails at a closing parenthesis too many and at a
comment. -/
def run (d : Dialect) (s : Scan) : List Char → Option Scan
  | [] => some s
  | c :: cs => (step d s c).bind fun next => run d next cs

theorem run_append (d : Dialect) (s : Scan) (front back : List Char) :
    run d s (front ++ back) = (run d s front).bind fun next => run d next back := by
  induction front generalizing s with
  | nil => rfl
  | cons c front ih => cases h : step d s c <;> simp [run, h, ih]

/-- Whether no quoted token is open. -/
def Place.isOutside : Place → Bool
  | .outside _ | .behind _ => true
  | .within _ | .escaped => false

/-- Whether a statement leaves no quote and no parenthesis open, closes none that is not open and
begins no comment. -/
def accepts (d : Dialect) (sql : String) : Bool :=
  match run d ⟨.outside none, 0⟩ sql.toList with
  | some ⟨place, depth⟩ => place.isOutside && depth == 0
  | none => false

/-! ## Pieces of a statement -/

/-- Outside of quotes, and not behind what a comment could begin with. -/
def Place.IsReady (place : Place) : Prop :=
  ∃ last, place = .outside last ∧ last ≠ some '-' ∧ last ≠ some '/'

def Place.IsOutside (place : Place) : Prop := place.isOutside = true

theorem Place.IsReady.isOutside {place : Place} (h : place.IsReady) : place.IsOutside := by
  obtain ⟨last, rfl, _⟩ := h
  rfl

/-- From every place with `P` the text leads to a place with `Q`, the depth going from `a` to `b`
above whatever it is at first. -/
def Scans (d : Dialect) (P : Place → Prop) (a : Nat) (text : String) (b : Nat)
    (Q : Place → Prop) : Prop :=
  ∀ place n, P place →
    ∃ next, run d ⟨place, n + a⟩ text.toList = some ⟨next, n + b⟩ ∧ Q next

namespace Scans

variable {d : Dialect} {P Q R : Place → Prop} {a b k : Nat} {s t : String}

theorem append (hs : Scans d P a s b Q) (ht : Scans d Q b t k R) : Scans d P a (s ++ t) k R := by
  intro place n hp
  obtain ⟨mid, hmid, hq⟩ := hs place n hp
  obtain ⟨next, hnext, hr⟩ := ht mid n hq
  refine ⟨next, ?_, hr⟩
  rw [String.toList_append, run_append, hmid]
  exact hnext

theorem weaken {P' Q' : Place → Prop} (h : Scans d P a s b Q) (hp : ∀ place, P' place → P place)
    (hq : ∀ place, Q place → Q' place) : Scans d P' a s b Q' := by
  intro place n hplace
  obtain ⟨next, hnext, hn⟩ := h place n (hp place hplace)
  exact ⟨next, hnext, hq next hn⟩

theorem lift (h : Scans d P a s b Q) : Scans d P (a + k) s (b + k) Q := by
  intro place n hp
  have hlift := h place (n + k) hp
  rwa [Nat.add_assoc n k a, Nat.add_assoc n k b, Nat.add_comm k a, Nat.add_comm k b] at hlift

end Scans

/-- A text that ends outside of quotes at the depth at which it began. -/
def IsClosed (d : Dialect) (s : String) : Prop := Scans d Place.IsReady 0 s 0 Place.IsOutside

/-- A closed text that can stand behind any other. -/
def IsTail (d : Dialect) (s : String) : Prop := Scans d Place.IsOutside 0 s 0 Place.IsOutside

/-- A closed text that can stand behind any other and in front of any other. -/
def IsFree (d : Dialect) (s : String) : Prop := Scans d Place.IsOutside 0 s 0 Place.IsReady

theorem IsTail.empty (d : Dialect) : IsTail d "" := fun place _ hplace => ⟨place, rfl, hplace⟩

theorem IsTail.isClosed {d : Dialect} {s : String} (h : IsTail d s) : IsClosed d s :=
  h.weaken (fun _ hp => hp.isOutside) fun _ hq => hq

namespace IsFree

variable {d : Dialect} {s t : String}

theorem isTail (h : IsFree d s) : IsTail d s := h.weaken (fun _ hp => hp) fun _ hq => hq.isOutside

theorem isClosed (h : IsFree d s) : IsClosed d s := h.isTail.isClosed

theorem append (hs : IsFree d s) (ht : IsFree d t) : IsFree d (s ++ t) :=
  Scans.append hs.isTail ht

theorem append_closed (hs : IsFree d s) (ht : IsClosed d t) : IsTail d (s ++ t) :=
  Scans.append hs ht

end IsFree

namespace IsClosed

variable {d : Dialect} {s t u : String}

theorem append_tail (hs : IsClosed d s) (ht : IsTail d t) : IsClosed d (s ++ t) :=
  Scans.append hs ht

theorem join (hs : IsClosed d s) (ht : IsFree d t) (hu : IsClosed d u) :
    IsClosed d (s ++ t ++ u) :=
  (Scans.append hs ht).append hu

theorem intercalate {texts : List String} (hs : IsFree d s)
    (htexts : ∀ t ∈ texts, IsClosed d t) : IsClosed d (s.intercalate texts) := by
  induction texts with
  | nil =>
      rw [String.intercalate_nil]
      exact (IsTail.empty d).isClosed
  | cons t texts ih =>
      have ht := htexts t (by simp)
      have hrest := ih fun u hu => htexts u (List.mem_cons_of_mem _ hu)
      cases texts with
      | nil =>
          rw [String.intercalate_singleton]
          exact ht
      | cons u texts =>
          rw [String.intercalate_cons_cons]
          exact ht.join hs hrest

end IsClosed

theorem accepts_of_isClosed {d : Dialect} {sql : String} (h : IsClosed d sql) :
    accepts d sql = true := by
  obtain ⟨next, hnext, hout⟩ := h (.outside none) 0 ⟨none, rfl, by simp, by simp⟩
  rw [Nat.add_zero] at hnext
  have houtside : next.isOutside = true := hout
  simp [accepts, hnext, houtside]

/-! ## Words -/

def quotes : List Char := ['\'', '"', Dialect.grave, '[', ']']

/-- The characters that can begin or end a token, or begin a comment. -/
def marks : List Char := quotes ++ ['-', '/']

def depthAfter (depth : Nat) : List Char → Option Nat
  | [] => some depth
  | c :: cs =>
    if c ∈ marks then none
    else if c = '(' then depthAfter (depth + 1) cs
    else if c = ')' then if depth = 0 then none else depthAfter (depth - 1) cs
    else depthAfter depth cs

/-- Whether a text without marks goes from the depth `a` to the depth `b`. -/
def isWord (a : Nat) (s : String) (b : Nat) : Bool :=
  match s.toList with
  | [] => false
  | c :: cs => c != '*' && depthAfter a (c :: cs) == some b

/-- The quotes of a dialect are among these. -/
structure HasQuotes (d : Dialect) : Prop where
  open_mem : d.openQuote ∈ quotes
  close_mem : d.closeQuote ∈ quotes
  open_ne : d.openQuote ≠ '\''

namespace HasQuotes

variable {d : Dialect}

theorem closing_mem (h : HasQuotes d) (token : Token) : closing d token ∈ marks := by
  cases token with
  | string =>
      rw [closing]
      decide
  | identifier => exact List.mem_append_left _ h.close_mem

theorem step_outside (h : HasQuotes d) {place : Place} {depth : Nat} {c : Char}
    (hplace : place.IsOutside) (hc : c ∉ marks) (hstar : c = '*' → place.IsReady) :
    step d ⟨place, depth⟩ c =
      if c = '(' then some ⟨.outside (some c), depth + 1⟩
      else if c = ')' then if depth = 0 then none else some ⟨.outside (some c), depth - 1⟩
      else some ⟨.outside (some c), depth⟩ := by
  have hquote : c ≠ '\'' := by
    rintro rfl
    exact hc (by decide)
  have hminus : c ≠ '-' := by
    rintro rfl
    exact hc (by decide)
  have hopen : c ≠ d.openQuote := by
    rintro rfl
    exact hc (List.mem_append_left _ h.open_mem)
  cases place with
  | outside last =>
      have hcomment : ¬ opensComment last c := by
        rintro (⟨_, hc⟩ | ⟨rfl, hc⟩)
        · exact hminus hc
        · obtain ⟨last, hlast, _, hslash⟩ := hstar hc
          cases hlast
          exact hslash rfl
      simp only [step, stepOutside, if_neg hquote, if_neg hopen, if_neg hcomment]
  | behind token =>
      have hclose : c ≠ closing d token := by
        rintro rfl
        exact hc (h.closing_mem token)
      have hcomment : ¬ opensComment none c := by simp [opensComment]
      simp only [step, stepOutside, if_neg hquote, if_neg hopen, if_neg hcomment, if_neg hclose]
  | within token => cases hplace
  | escaped => cases hplace

theorem isReady_of_not_mem_marks {c : Char} (hc : c ∉ marks) :
    (Place.outside (some c)).IsReady := by
  refine ⟨some c, rfl, ?_, ?_⟩
  · rintro ⟨⟩
    exact hc (by decide)
  · rintro ⟨⟩
    exact hc (by decide)

theorem run_depthAfter (h : HasQuotes d) {cs : List Char} {place : Place} {n a b : Nat}
    (hplace : place.IsReady) (hcs : depthAfter a cs = some b) :
    ∃ next, run d ⟨place, n + a⟩ cs = some ⟨next, n + b⟩ ∧ next.IsReady := by
  induction cs generalizing place a with
  | nil =>
      cases hcs
      exact ⟨place, rfl, hplace⟩
  | cons c cs ih =>
      rw [depthAfter] at hcs
      split at hcs
      · cases hcs
      · rename_i hc
        have hnext := isReady_of_not_mem_marks hc
        rw [run, h.step_outside hplace.isOutside hc fun _ => hplace]
        split at hcs
        · rename_i hopen
          rw [if_pos hopen]
          exact ih hnext hcs
        · rename_i hopen
          rw [if_neg hopen]
          split at hcs
          · rename_i hclose
            rw [if_pos hclose]
            split at hcs
            · cases hcs
            · rename_i hpos
              rw [if_neg (by omega), Option.bind_some, Nat.add_sub_assoc (by omega)]
              exact ih hnext hcs
          · rename_i hclose
            rw [if_neg hclose]
            exact ih hnext hcs

/-- A text without marks can stand behind anything. -/
theorem scans_word (h : HasQuotes d) {a b : Nat} {s : String} (hs : isWord a s b = true) :
    Scans d Place.IsOutside a s b Place.IsReady := by
  intro place n hplace
  rw [isWord] at hs
  split at hs
  · cases hs
  · rename_i c cs hcs
    simp only [Bool.and_eq_true, bne_iff_ne, beq_iff_eq] at hs
    obtain ⟨hstar, hdepth⟩ := hs
    -- The first character begins nothing, so it may be read as if nothing stood in front of it.
    have hready : (Place.outside none).IsReady := ⟨none, rfl, by simp, by simp⟩
    have hc : c ∉ marks := by
      intro hc
      simp [depthAfter, hc] at hdepth
    have hfirst : step d ⟨place, n + a⟩ c = step d ⟨.outside none, n + a⟩ c := by
      rw [h.step_outside hplace hc fun hc => absurd hc hstar,
        h.step_outside hready.isOutside hc fun _ => hready]
    obtain ⟨next, hnext, hq⟩ := h.run_depthAfter (n := n) hready hdepth
    refine ⟨next, ?_, hq⟩
    rw [hcs, run, hfirst]
    exact hnext

theorem word (h : HasQuotes d) {s : String} (hs : isWord 0 s 0 = true) : IsFree d s :=
  h.scans_word hs

theorem enclose (h : HasQuotes d) {s t u : String} (hs : isWord 0 s 1 = true) (ht : IsClosed d t)
    (hu : isWord 1 u 0 = true) : IsFree d (s ++ t ++ u) := by
  have hwithin : Scans d Place.IsReady (0 + 1) t (0 + 1) Place.IsOutside := Scans.lift ht
  exact ((h.scans_word hs).append hwithin).append (h.scans_word hu)

theorem sign (h : HasQuotes d) {c : Char} (hc : c ∈ ['-', '+', '*', '/']) :
    Scans d Place.IsReady 0 (String.singleton c) 0 Place.IsOutside := by
  rintro place n ⟨last, rfl, hminus, hslash⟩
  simp only [List.mem_cons, List.not_mem_nil, or_false] at hc
  have hquotes : c ∉ quotes := by
    rcases hc with rfl | rfl | rfl | rfl <;> decide
  have hopen : c ≠ d.openQuote := by
    rintro rfl
    exact hquotes h.open_mem
  have hcomment : ¬ opensComment last c := by
    rintro (⟨hlast, _⟩ | ⟨hlast, _⟩)
    · exact hminus hlast
    · exact hslash hlast
  refine ⟨.outside (some c), ?_, rfl⟩
  rcases hc with rfl | rfl | rfl | rfl <;>
    simp [run, step, stepOutside, hopen, hcomment]

end HasQuotes

end SqlChain.Lexical
