import SqlChain.Proofs.Syntax.Term
import SqlChain.Proofs.Window.Nesting

/-!
# Windows in texts

A piece of a text spans what it adds to the lexemes in front of it, and pieces are put together like
the lexemes of a statement. There is a rule for every way in which a term is put together; the one
for windows wants a call in front of the `OVER`.
-/

namespace SqlChain.Syntax

open Lexer

/-- From every lexer with `P` the text leads to one with `Q`, and its lexemes nest. -/
def Spans (d : Dialect) (windows : Bool) (P : Lexer → Prop) (s : String) (Q : Lexer → Prop) :
    Prop :=
  ∃ xs, Lexes d P s xs Q ∧ Nests windows xs

/-- A text by itself. -/
abbrev IsTidy (d : Dialect) (windows : Bool) (s : String) : Prop :=
  Spans d windows IsIdle s IsSettled

/-- A text that is put behind another, or none. -/
abbrev IsTidyTail (d : Dialect) (windows : Bool) (s : String) : Prop :=
  Spans d windows IsSettled s IsSettled

/-- A text that stands between two others. -/
abbrev IsTidyClause (d : Dialect) (windows : Bool) (s : String) : Prop :=
  Spans d windows IsSettled s IsIdle

variable {d : Dialect} {windows : Bool} {P Q R : Lexer → Prop} {s s' s'' : String}

namespace Spans

theorem append (hs : Spans d windows P s Q) (ht : Spans d windows Q s' R) :
    Spans d windows P (s ++ s') R := by
  obtain ⟨xs, hxs, hx⟩ := hs
  obtain ⟨ys, hys, hy⟩ := ht
  exact ⟨xs ++ ys, hxs.append hys, hx.append hy⟩

theorem settled (h : Spans d windows P s IsIdle) : Spans d windows P s IsSettled := by
  obtain ⟨xs, hxs, hx⟩ := h
  exact ⟨xs, hxs.settled, hx⟩

theorem alone (h : Spans d windows IsSettled s Q) : Spans d windows IsIdle s Q := by
  obtain ⟨xs, hxs, hx⟩ := h
  exact ⟨xs, hxs.alone, hx⟩

theorem empty (P : Lexer → Prop) : Spans d windows P "" P := by
  refine ⟨[], fun l pending hl hpending => ?_, .nil⟩
  exact ⟨l, [], pending, rfl, hpending, by simp, hl⟩

theorem join (hs : Spans d windows P s IsSettled) (hseparator : IsTidyClause d windows s')
    (ht : Spans d windows IsIdle s'' Q) : Spans d windows P (s ++ s' ++ s'') Q :=
  (hs.append hseparator).append ht

theorem intercalate (hseparator : IsTidyClause d windows s) {texts : List String}
    (htexts : ∀ t ∈ texts, IsTidy d windows t) : IsTidy d windows (String.intercalate s texts) := by
  induction texts with
  | nil => exact (empty IsIdle).settled
  | cons t rest ih =>
      obtain ⟨ht, hrest⟩ := List.forall_mem_cons.1 htexts
      cases rest with
      | nil => simpa using ht
      | cons u rest =>
          rw [String.intercalate_cons_cons]
          exact ht.join hseparator (ih hrest)

end Spans

/-! ## Pieces without quotes -/

/-- Whether a text between others is made of these lexemes, which may stand anywhere. -/
def isFreeClause (s : String) (xs : List Lexeme) : Bool := isClause s xs && xs.all Lexeme.isFree

/-- Whether a text in front of others is made of these lexemes, which may stand anywhere. -/
def isFreeHead (s : String) (xs : List Lexeme) : Bool :=
  isPhrase s xs .idle && xs.all Lexeme.isFree

/-- A word that may stand anywhere. -/
def IsFreeWord (w : String) : Prop := IsWord w ∧ (Lexeme.word w).isFree = true

instance (w : String) : Decidable (IsFreeWord w) := inferInstanceAs (Decidable (_ ∧ _))

section

variable (h : IsPlain d)

include h

theorem isTidyClause (xs : List Lexeme) (hs : isFreeClause s xs = true) :
    IsTidyClause d windows s := by
  obtain ⟨hclause, hfree⟩ := Bool.and_eq_true_iff.1 hs
  exact ⟨xs, .clause h hclause, .of_all hfree⟩

theorem spans_head (xs : List Lexeme) (hs : isFreeHead s xs = true) :
    Spans d windows IsIdle s IsIdle := by
  obtain ⟨hphrase, hfree⟩ := Bool.and_eq_true_iff.1 hs
  exact ⟨xs, .phrase h hphrase, .of_all hfree⟩

theorem isTidy_word {w : String} (hw : IsFreeWord w) : IsTidy d windows w :=
  ⟨[.word w], lexes_word h hw.1, .lexeme hw.2⟩

theorem isTidyTail_space {w : String} (hw : IsFreeWord w) : IsTidyTail d windows (" " ++ w) :=
  (isTidyClause h [] (by decide)).append (isTidy_word h hw)

theorem isTidy_parenthesised (hs : IsTidy d windows s) :
    IsTidyClause d windows (Term.parenthesised s) := by
  obtain ⟨xs, hxs, hx⟩ := hs
  exact ⟨_, lexes_parenthesised h hxs, hx.parenthesised⟩

theorem isTidy_parenthesisedIf (nested : Bool) (hs : IsTidy d windows s) :
    IsTidy d windows (Term.parenthesisedIf nested s) := by
  cases nested with
  | false => exact hs
  | true => exact (isTidy_parenthesised h hs).alone.settled

theorem isTidy_called {w : String} (hw : IsFreeWord w) (hs : IsTidy d windows s) :
    IsTidy d windows (w ++ Term.parenthesised s) :=
  (isTidy_word h hw).append (isTidy_parenthesised h hs).settled

theorem isTidy_countStar : IsTidy d windows "COUNT(*)" := by
  refine ⟨[.word "COUNT", .mark "(", .mark "*", .mark ")"], ?_, ?_⟩
  · exact Lexes.settled (.phrase h (by decide))
  · exact .cons rfl (.parenthesised (.lexeme rfl))

theorem isTidy_countDistinct (hs : IsTidy d windows s) :
    IsTidy d windows ("COUNT" ++ Term.parenthesised ("DISTINCT " ++ s)) := by
  obtain ⟨xs, hxs, hx⟩ := hs
  have hdistinct : Lexes d IsIdle "DISTINCT " [.word "DISTINCT"] IsIdle := .phrase h (by decide)
  refine ⟨_, lexes_called h (by decide) (hdistinct.append hxs), ?_⟩
  exact .cons rfl (.distinct hx)

/-! ## Names and literals -/

theorem isTidy_quoteQualified {qualifier : Option String} {name quoted : String}
    (hquoted : d.quoteQualified qualifier name = .ok quoted) : IsTidy d windows quoted := by
  refine ⟨_, (lexes_quoteQualified h hquoted).weaken (fun _ hl => hl)
    fun _ => IsNamed.isSettled, .of_all ?_⟩
  cases qualifier <;> rfl

omit h in
theorem isTidy_of_lexesLiteral {text : String} (htext : LexesLiteral d text) :
    IsTidy d windows text := by
  obtain ⟨xs, hxs, hliteral⟩ := htext
  refine ⟨xs, hxs, .of_all ?_⟩
  cases hliteral with
  | word hword =>
      have hall : ∀ w ∈ ["NULL", "TRUE", "FALSE"], [Lexeme.word w].all Lexeme.isFree = true := by
        decide
      exact hall text hword
  | number | negative | string => rfl

theorem isTidy_number (n : Int64) : IsTidy d windows (toString n.toInt) :=
  isTidy_of_lexesLiteral (lexesLiteral_signed h (isSigned_toString n.toInt))

theorem isTidy_negated (hs : IsTidy d windows s) (hsome : s.toList ≠ []) :
    IsTidy d windows (Term.negated s) := by
  have hminus : ∀ {s : String}, IsTidy d windows s → s.toList ≠ [] → s.toList.head? ≠ some '-' →
      IsTidy d windows ("-" ++ s) := by
    rintro s ⟨xs, hxs, hx⟩ hsome hhead
    exact ⟨_, hxs.minus h hsome hhead, .cons rfl hx⟩
  rw [Term.negated]
  split
  · refine hminus (isTidy_parenthesised h hs).alone.settled ?_ ?_ <;> simp [Term.parenthesised]
  · next hhead => exact hminus hs hsome hhead

end

/-! ## Terms -/

/-- The text of a term, by itself and as an operand. There is one, so that a sign may stand in front
of it. -/
structure IsTidyTerm (d : Dialect) (windows : Bool) (t : Term) : Prop where
  tidy : ∀ nested, IsTidy d windows (t.text nested)
  ne_nil : ∀ nested, (t.text nested).toList ≠ []

theorem isTidyTerm_of_same {t : Term} (hs : ∀ nested, t.text nested = s) (hsome : s.toList ≠ [])
    (htidy : IsTidy d windows s) : IsTidyTerm d windows t where
  tidy nested := by rwa [hs]
  ne_nil nested := by rwa [hs]

variable {t u v : Term} {args : List Term}

theorem isTidy_of_mem_texts (nested : Bool) (hargs : ∀ t ∈ args, IsTidyTerm d windows t) :
    ∀ s ∈ Term.texts nested args, IsTidy d windows s := by
  intro s hs
  rw [Term.texts_eq_map] at hs
  obtain ⟨t, ht, rfl⟩ := List.mem_map.1 hs
  exact (hargs t ht).tidy nested

theorem isTidyTerm_literal {text : String} (htext : LexesLiteral d text) :
    IsTidyTerm d windows (.literal text) := by
  refine isTidyTerm_of_same (fun _ => rfl) ?_ (isTidy_of_lexesLiteral htext)
  obtain ⟨xs, hxs, hliteral⟩ := htext
  exact ne_nil_of_lexes hxs (by cases hliteral <;> simp)

section

variable (h : IsPlain d)

include h

/-- A term that is in parentheses where it is an operand. -/
theorem isTidyTerm_of_wrapped (hs : ∀ nested, t.text nested = Term.parenthesisedIf nested s)
    (hsome : s.toList ≠ []) (htidy : IsTidy d windows s) : IsTidyTerm d windows t where
  tidy nested := by
    rw [hs]
    exact isTidy_parenthesisedIf h nested htidy
  ne_nil nested := by
    rw [hs]
    cases nested with
    | false => exact hsome
    | true => simp [Term.parenthesisedIf, Term.parenthesised]

theorem isTidyTerm_column {qualifier : Option String} {name quoted : String}
    (hquoted : d.quoteQualified qualifier name = .ok quoted) :
    IsTidyTerm d windows (.column quoted) := by
  refine isTidyTerm_of_same (fun _ => rfl) ?_ (isTidy_quoteQualified h hquoted)
  exact ne_nil_of_lexes (lexes_quoteQualified h hquoted)
    (by cases qualifier <;> simp [columnLexemes])

theorem isTidy_listed (hargs : ∀ t ∈ args, IsTidyTerm d windows t) :
    IsTidy d windows (Term.listed (Term.texts false args)) :=
  .intercalate (isTidyClause h [.mark ","] (by decide)) (isTidy_of_mem_texts false hargs)

theorem isTidyTerm_apply {w : String} (hw : IsFreeWord w)
    (hargs : ∀ t ∈ args, IsTidyTerm d windows t) : IsTidyTerm d windows (.apply w args) :=
  isTidyTerm_of_same (fun _ => by rw [Term.text]) (by simp [Term.parenthesised])
    (isTidy_called h hw (isTidy_listed h hargs))

theorem isTidyTerm_countStar : IsTidyTerm d windows .countStar :=
  isTidyTerm_of_same (fun _ => by rw [Term.text]) (by simp) (isTidy_countStar h)

theorem isTidyTerm_countDistinct (hargs : ∀ t ∈ args, IsTidyTerm d windows t) :
    IsTidyTerm d windows (.countDistinct args) :=
  isTidyTerm_of_same (fun _ => by rw [Term.text]) (by simp [Term.parenthesised])
    (isTidy_countDistinct h (isTidy_listed h hargs))

theorem isTidyTerm_substringFor (ht : IsTidyTerm d windows t) (start length : Int64) :
    IsTidyTerm d windows (.substringFor t start length) := by
  have hfrom := (ht.tidy false).join (isTidyClause h (s := " FROM ") [.word "FROM"] (by decide))
    (isTidy_number h start)
  have hfor := hfrom.join (isTidyClause h (s := " FOR ") [.word "FOR"] (by decide))
    (isTidy_number h length)
  exact isTidyTerm_of_same (fun _ => by rw [Term.text]) (by simp [Term.parenthesised])
    (isTidy_called h (by decide) hfor)

theorem isTidyTerm_cast {type : String} (htype : IsFreeWord type) (ht : IsTidyTerm d windows t) :
    IsTidyTerm d windows (.cast t type) := by
  have has := (ht.tidy false).join (isTidyClause h (s := " AS ") [.word "AS"] (by decide))
    (isTidy_word h htype)
  exact isTidyTerm_of_same (fun _ => by rw [Term.text]) (by simp [Term.parenthesised])
    (isTidy_called h (by decide) has)

theorem isTidyTerm_conditional {otherwise : Option Term} (ht : IsTidyTerm d windows t)
    (hu : IsTidyTerm d windows u) (hv : ∀ v ∈ otherwise, IsTidyTerm d windows v) :
    IsTidyTerm d windows (.conditional t u otherwise) := by
  have branch : ∀ {t : Term}, IsTidyTerm d windows t →
      Spans d windows IsIdle (Term.parenthesised (t.text false)) IsSettled :=
    fun ht => (isTidy_parenthesised h (ht.tidy false)).alone.settled
  have hcase : Spans d windows IsIdle "CASE WHEN " IsIdle :=
    spans_head h [.word "CASE", .word "WHEN"] (by decide)
  have hthen := (hcase.append (branch ht)).join
    (isTidyClause h (s := " THEN ") [.word "THEN"] (by decide)) (branch hu)
  have hend : IsTidyTail d windows " END" := isTidyTail_space h (w := "END") (by decide)
  cases otherwise with
  | none =>
      exact isTidyTerm_of_same (fun _ => by rw [Term.text]) (by simp) (hthen.append hend)
  | some v =>
      have helse := hthen.join (isTidyClause h (s := " ELSE ") [.word "ELSE"] (by decide))
        (branch (hv v rfl))
      exact isTidyTerm_of_same (fun _ => by rw [Term.text]) (by simp) (helse.append hend)

theorem isTidyTerm_negate (ht : IsTidyTerm d windows t) : IsTidyTerm d windows (.negate t) := by
  refine isTidyTerm_of_same (fun _ => by rw [Term.text]) ?_
    (isTidy_negated h (ht.tidy true) (ht.ne_nil true))
  rw [Term.negated]
  split <;> simp

theorem isTidyTerm_not (ht : IsTidyTerm d windows t) : IsTidyTerm d windows (.not t) :=
  isTidyTerm_of_same (fun _ => by rw [Term.text]) (by simp [Term.parenthesised])
    (isTidy_called h (by decide) (ht.tidy false))

theorem isTidyTerm_isNull (ht : IsTidyTerm d windows t) : IsTidyTerm d windows (.isNull t) := by
  have hnull : IsTidyTail d windows " IS NULL" :=
    (isTidyClause h (s := " IS ") [.word "IS"] (by decide)).append
      (isTidy_word h (w := "NULL") (by decide))
  have hinner := (isTidy_parenthesised h (ht.tidy false)).alone.settled.append hnull
  exact isTidyTerm_of_same (fun _ => by rw [Term.text]) (by simp [Term.parenthesised])
    (isTidy_parenthesised h hinner).alone.settled

/-- An operator between two operands, which both have texts. -/
theorem isTidyTerm_binary {op : String} (hop : IsTidyClause d windows (" " ++ op ++ " "))
    (ht : IsTidyTerm d windows t) (hu : IsTidyTerm d windows u) :
    IsTidyTerm d windows (.binary op t u) := by
  have hbinary := (ht.tidy true).join hop (hu.tidy true)
  simp only [← String.append_assoc] at hbinary
  exact isTidyTerm_of_wrapped h (fun _ => by rw [Term.text]) (by simp [ht.ne_nil]) hbinary

theorem isTidyTerm_between (ht : IsTidyTerm d windows t) (hu : IsTidyTerm d windows u)
    (hv : IsTidyTerm d windows v) : IsTidyTerm d windows (.between t u v) := by
  have hlow := (ht.tidy true).join
    (isTidyClause h (s := " BETWEEN ") [.word "BETWEEN"] (by decide)) (hu.tidy true)
  have hhigh := hlow.join (isTidyClause h (s := " AND ") [.word "AND"] (by decide)) (hv.tidy true)
  exact isTidyTerm_of_wrapped h (fun _ => by rw [Term.text]) (by simp) hhigh

theorem isTidyTerm_inList (ht : IsTidyTerm d windows t)
    (hargs : ∀ t ∈ args, IsTidyTerm d windows t) : IsTidyTerm d windows (.inList t args) := by
  have hlist := (isTidy_parenthesised h (isTidy_listed h hargs)).alone.settled
  exact isTidyTerm_of_wrapped h (fun _ => by rw [Term.text]) (by simp)
    ((ht.tidy true).join (isTidyClause h (s := " IN ") [.word "IN"] (by decide)) hlist)

theorem isTidyTerm_inTerm (ht : IsTidyTerm d windows t) (hu : IsTidyTerm d windows u) :
    IsTidyTerm d windows (.inTerm t u) :=
  isTidyTerm_of_wrapped h (fun _ => by rw [Term.text]) (by simp)
    ((ht.tidy true).join (isTidyClause h (s := " IN ") [.word "IN"] (by decide)) (hu.tidy true))

theorem isTidyTerm_concat (hsome : args ≠ []) (hargs : ∀ t ∈ args, IsTidyTerm d windows t) :
    IsTidyTerm d windows (.concat args) := by
  refine isTidyTerm_of_wrapped h (fun _ => by rw [Term.text]) ?_
    (.intercalate (isTidyClause h (s := " || ") [.mark "||"] (by decide))
      (isTidy_of_mem_texts true hargs))
  obtain ⟨t, rest, rfl⟩ := List.exists_cons_of_ne_nil hsome
  have ht := (hargs t (by simp)).ne_nil true
  cases rest <;> simp [Term.texts, ht, String.intercalate_cons_cons]

theorem isTidyTerm_descending (ht : IsTidyTerm d windows t) :
    IsTidyTerm d windows (.descending t) := by
  have hdesc : IsTidyTail d windows " DESC" := isTidyTail_space h (w := "DESC") (by decide)
  exact isTidyTerm_of_same (fun _ => by rw [Term.text]) (by simp) ((ht.tidy true).append hdesc)

end

/-! ## Windows -/

/-- The clauses of a window. -/
theorem isTidy_windowClauses (h : IsPlain d) {partition order : List String} (running : Bool)
    (hpartition : ∀ s ∈ partition, IsTidy d windows s) (horder : ∀ s ∈ order, IsTidy d windows s) :
    IsTidy d windows (String.intercalate " "
      (Term.partitionClause partition ++ Term.orderClause order running)) := by
  have listed : ∀ {texts : List String}, (∀ s ∈ texts, IsTidy d windows s) →
      IsTidy d windows (Term.listed texts) :=
    fun htexts => .intercalate (isTidyClause h [.mark ","] (by decide)) htexts
  refine .intercalate (isTidyClause h [] (by decide)) (List.forall_mem_append.2 ⟨?_, ?_⟩)
  · rw [Term.partitionClause]
    split
    · simp
    · refine List.forall_mem_singleton.2 (Spans.append (Q := IsIdle) ?_ (listed hpartition))
      exact spans_head h [.word "PARTITION", .word "BY"] (by decide)
  · rw [Term.orderClause]
    split
    · simp
    · refine List.forall_mem_cons.2 ⟨Spans.append (Q := IsIdle) ?_ (listed horder), ?_⟩
      · exact spans_head h [.word "ORDER", .word "BY"] (by decide)
      · cases running with
        | false => simp
        | true =>
            refine List.forall_mem_singleton.2 ?_
            exact (spans_head h (s := "ROWS UNBOUNDED ") [.word "ROWS", .word "UNBOUNDED"]
              (by decide)).append (isTidy_word h (w := "PRECEDING") (by decide))

/-- The text of a call, of which a window may be made. -/
def IsCallText (d : Dialect) (windows : Bool) (s : String) : Prop :=
  ∃ w args, (Lexeme.word w).isFree = true ∧ Nests windows args ∧
    Lexes d IsIdle s (.word w :: (.mark "(" :: args ++ [.mark ")"])) IsSettled

theorem isCallText_apply (h : IsPlain d) {w : String} (hw : IsFreeWord w)
    (hargs : ∀ t ∈ args, IsTidyTerm d windows t) :
    IsCallText d windows ((Term.apply w args).text false) := by
  obtain ⟨xs, hxs, hx⟩ := isTidy_listed h hargs
  refine ⟨w, xs, hw.2, hx, ?_⟩
  rw [Term.text]
  exact lexes_called h hw.1 hxs

theorem isCallText_countStar (h : IsPlain d) :
    IsCallText d windows (Term.countStar.text false) := by
  refine ⟨"COUNT", [.mark "*"], by decide, .lexeme rfl, ?_⟩
  rw [Term.text]
  exact Lexes.settled (.phrase h (by decide))

theorem isTidyTerm_windowed (h : IsPlain d) (hbody : IsCallText d true (t.text false))
    {partition : List String} (hpartition : ∀ s ∈ partition, IsTidy d true s)
    (hargs : ∀ t ∈ args, IsTidyTerm d true t) (running : Bool) :
    IsTidyTerm d true (.windowed t partition args running) := by
  obtain ⟨w, xs, hw, hxs, hlexes⟩ := hbody
  have hclauses := isTidy_windowClauses h running hpartition
    (isTidy_of_mem_texts true hargs)
  have hover : Spans d true IsIdle (t.text false ++ " OVER ") IsIdle :=
    ⟨_, hlexes.append (.clause h (show isClause " OVER " [.word "OVER"] = true by decide)),
      .windowed rfl hw hxs⟩
  exact isTidyTerm_of_same (fun _ => by rw [Term.text]) (by simp)
    (hover.append (isTidy_parenthesised h hclauses).alone.settled)

end SqlChain.Syntax
