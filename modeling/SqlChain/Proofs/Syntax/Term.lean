import SqlChain.Proofs.Syntax.Reading
import SqlChain.Term.Basic

/-!
# Terms that are read back

The text of a term is cut into lexemes that are read as a tree, when it stands by itself and when it is
an operand. There is a rule for every way in which a term is put together, and a term that has
operators of its own is the same in both places up to one pair of parentheses.
-/

namespace SqlChain

open Syntax

namespace Term

/-- How the text of a term ends where the term is an operand. -/
def tail : Term → Tail
  | .not _ => .not
  | .negate operand => operand.tail.negate
  | _ => .closed

theorem head_of_minusNot {t : Term} (h : t.tail = .minusNot) :
    (t.text true).toList.head? = some '-' := by
  cases t with
  | negate operand =>
      rw [text, negated]
      split <;> simp
  | _ => cases h

end Term

namespace Syntax

open Grammar Lexer

/-- The text is read as an expression of its own. -/
def ReadsText (d : Dialect) (g : Grammar) (s : String) (tree : Tree) : Prop :=
  ∃ xs, Lexes d IsIdle s xs IsSettled ∧ g.ReadsExpr xs tree

/-- The text is read as an operand, which may be a `NOT`. -/
def ReadsBeside (d : Dialect) (g : Grammar) (negated : Bool) (s : String) (tree : Tree) : Prop :=
  ∃ xs, Lexes d IsIdle s xs IsSettled ∧ g.ReadsOperand xs tree negated

structure Reads (d : Dialect) (g : Grammar) (tail : Tail) (t : Term) (tree : Tree) : Prop where
  tail_eq : t.tail = tail
  operand : ReadsBeside d g tail.isOpen (t.text true) tree
  alone : ReadsText d g (t.text false) tree

variable {d : Dialect} {g : Grammar} {negated : Bool} {tail : Tail} {s s' s'' : String}
  {t u v : Term} {x y z : Tree}

theorem ReadsBeside.readsText (h : ReadsBeside d g negated s x) : ReadsText d g s x := by
  obtain ⟨xs, hlexes, hread⟩ := h
  exact ⟨xs, hlexes, hread.readsExpr⟩

theorem readsBeside_literal {text : String} (htext : LexesLiteral d text) :
    ReadsBeside d g false text (literalTree text) := by
  obtain ⟨xs, hlexes, hliteral⟩ := htext
  exact ⟨xs, hlexes, readsOperand_literal hliteral⟩

theorem ReadsBeside.weaken (h : ReadsBeside d g false s x) (negated : Bool) :
    ReadsBeside d g negated s x := by
  obtain ⟨xs, hlexes, hread⟩ := h
  exact ⟨xs, hlexes, hread.weaken negated⟩

/-- Lists whose members are related through something in between. -/
theorem exists_forall₂_of_forall₂ {α β γ : Type} {R : α → β → Prop} {S : β → γ → Prop}
    {as : List α} {cs : List γ} (h : List.Forall₂ (fun a c => ∃ b, R a b ∧ S b c) as cs) :
    ∃ bs, List.Forall₂ R as bs ∧ List.Forall₂ S bs cs := by
  induction h with
  | nil => exact ⟨[], .nil, .nil⟩
  | cons hac _ ih =>
      obtain ⟨b, hab, hbc⟩ := hac
      obtain ⟨bs, has, hcs⟩ := ih
      exact ⟨b :: bs, .cons hab has, .cons hbc hcs⟩

theorem ForallToLast.exists_between {α β γ : Type} {P : α → β → Prop} {R S : β → γ → Prop}
    {as : List α} {cs : List γ}
    (h : ForallToLast (fun a c => ∃ b, P a b ∧ R b c) (fun a c => ∃ b, P a b ∧ S b c) as cs) :
    ∃ bs, List.Forall₂ P as bs ∧ ForallToLast R S bs cs := by
  induction h with
  | nil => exact ⟨[], .nil, .nil⟩
  | last hac =>
      obtain ⟨b, hab, hbc⟩ := hac
      exact ⟨[b], .cons hab .nil, .last hbc⟩
  | cons hac _ ih =>
      obtain ⟨b, hab, hbc⟩ := hac
      obtain ⟨bs, has, hcs⟩ := ih
      exact ⟨b :: bs, .cons hab has, .cons hbc hcs⟩

/-! ## Pieces -/

section

variable {P Q : Lexer → Prop} {xs ys seps : List Lexeme}

theorem Lexes.alone (h : Lexes d IsSettled s xs Q) : Lexes d IsIdle s xs Q :=
  h.weaken (fun _ => IsIdle.isSettled) fun _ hl => hl

theorem Lexes.settled (h : Lexes d P s xs IsIdle) : Lexes d P s xs IsSettled :=
  h.weaken (fun _ hl => hl) fun _ => IsIdle.isSettled

/-- What stands between two texts separates them. -/
theorem Lexes.join (h : IsPlain d) (hs : Lexes d P s xs IsSettled)
    (hseparator : isClause s' seps = true) (ht : Lexes d IsIdle s'' ys Q) :
    Lexes d P (s ++ s' ++ s'') (xs ++ (seps ++ ys)) Q := by
  rw [← List.append_assoc]
  exact (hs.append (.clause h hseparator)).append ht

theorem lexes_parenthesised (h : IsPlain d) (hs : Lexes d IsIdle s xs IsSettled) :
    Lexes d IsSettled (Term.parenthesised s) (.mark "(" :: xs ++ [.mark ")"]) IsIdle := by
  have hopen : Lexes d IsSettled "(" [.mark "("] IsIdle := .clause h (by decide)
  have hclose : Lexes d IsSettled ")" [.mark ")"] IsIdle := .clause h (by decide)
  exact (hopen.append hs).append hclose

theorem lexes_intercalate (h : IsPlain d) {separator : Lexeme}
    (hseparator : isClause s [separator] = true) {texts : List String} {xss : List (List Lexeme)}
    (htexts : List.Forall₂ (Lexes d IsIdle · · IsSettled) texts xss) :
    Lexes d IsIdle (String.intercalate s texts) (joined separator xss) IsSettled := by
  induction htexts with
  | nil => exact (Lexes.of_run rfl rfl rfl : Lexes d IsIdle "" ([] ++ []) IsIdle).settled
  | @cons text xs texts xss hxs hrest ih =>
      cases hrest with
      | nil => simpa [joined] using hxs
      | cons =>
          rw [String.intercalate_cons_cons, joined_cons_cons]
          exact hxs.join h hseparator ih

/-- Whether a word is cut into one lexeme. -/
def IsWord (w : String) : Prop := isPhrase w [.word w] (.word w.toList) = true

instance (w : String) : Decidable (IsWord w) := inferInstanceAs (Decidable (_ = true))

theorem lexes_word (h : IsPlain d) {w : String} (hw : IsWord w) :
    Lexes d IsIdle w [.word w] IsSettled := by
  refine (Lexes.phrase h hw).weaken (fun _ hl => hl) ?_
  rintro _ rfl
  rfl

theorem lexes_called (h : IsPlain d) {w : String} (hw : IsWord w)
    (hs : Lexes d IsIdle s xs IsSettled) :
    Lexes d IsIdle (w ++ Term.parenthesised s) (.word w :: .mark "(" :: (xs ++ [.mark ")"]))
      IsSettled :=
  (lexes_word h hw).append (lexes_parenthesised h hs).settled

theorem lexes_caseWhen (h : IsPlain d) :
    Lexes d IsIdle "CASE WHEN " [.word "CASE", .word "WHEN"] IsIdle :=
  Lexes.phrase h (by decide)

theorem lexes_end (h : IsPlain d) : Lexes d IsSettled " END" [.word "END"] IsSettled := by
  have hword := lexes_word h (show IsWord "END" by decide)
  exact Lexes.append (.clause h (show isClause " " [] = true by decide)) hword

theorem ne_nil_of_lexes (h : Lexes d IsIdle s xs Q) (hxs : xs ≠ []) : s.toList ≠ [] := by
  intro hempty
  obtain ⟨next, found, rest, hrun, hrest, hfound, _⟩ := h .idle [] rfl rfl
  rw [hempty] at hrun
  cases hrun
  cases hrest
  exact hxs hfound.symm

end

/-! ## Readings of texts -/

section

variable (h : IsPlain d)

include h

theorem ReadsText.parenthesised (hs : ReadsText d g s x) :
    ReadsBeside d g false (Term.parenthesised s) x := by
  obtain ⟨xs, hlexes, hread⟩ := hs
  exact ⟨_, (lexes_parenthesised h hlexes).alone.settled, hread.parenthesised⟩

/-- A second sign would begin a comment, so that there are parentheses. -/
theorem ReadsText.minus (hs : ReadsText d g s x) (hhead : s.toList.head? = some '-') :
    ReadsBeside d g false (Term.negated s) (.negate x) := by
  obtain ⟨xs, hlexes, hread⟩ := hs.parenthesised h
  have hempty := ne_nil_of_lexes hlexes (List.ne_nil_of_length_pos hread.length_pos)
  rw [Term.negated, if_pos hhead]
  exact ⟨_, hlexes.minus h hempty (by simp [Term.parenthesised]), hread.negate⟩

theorem ReadsBeside.minus (hs : ReadsBeside d g negated s x) :
    ReadsBeside d g negated (Term.negated s) (.negate x) := by
  by_cases hhead : s.toList.head? = some '-'
  · exact (hs.readsText.minus h hhead).weaken negated
  · obtain ⟨xs, hlexes, hread⟩ := hs
    have hempty := ne_nil_of_lexes hlexes (List.ne_nil_of_length_pos hread.length_pos)
    rw [Term.negated, if_neg hhead]
    exact ⟨_, hlexes.minus h hempty hhead, hread.negate⟩

/-- An operator and how it is written between its operands. -/
def IsInfix (op : String) : Prop :=
  IsOperator op ∧ isClause (" " ++ op ++ " ") [operatorLexeme op] = true

theorem ReadsBeside.binary {op : String} (hop : IsInfix op) {left right : Bool}
    (hs : ReadsBeside d g left s x) (hs' : ReadsBeside d g right s' y)
    (hguards : guards op = true ∨ left = false) :
    ReadsText d g (s ++ " " ++ op ++ " " ++ s') (.binary op x y) := by
  obtain ⟨xs, hxs, hx⟩ := hs
  obtain ⟨ys, hys, hy⟩ := hs'
  have hlexes := hxs.join h hop.2 hys
  simp only [← String.append_assoc] at hlexes
  exact ⟨_, hlexes, hx.binary hop.1 hy hguards⟩

theorem ReadsBeside.between {low high : Bool} (hs : ReadsBeside d g false s x)
    (hs' : ReadsBeside d g low s' y) (hs'' : ReadsBeside d g high s'' z) :
    ReadsText d g (s ++ " BETWEEN " ++ s' ++ " AND " ++ s'') (.between x y z) := by
  obtain ⟨xs, hxs, hx⟩ := hs
  obtain ⟨ys, hys, hy⟩ := hs'
  obtain ⟨zs, hzs, hz⟩ := hs''
  have hlow := hxs.join h (show isClause " BETWEEN " [.word "BETWEEN"] = true by decide) hys
  have hhigh := hlow.join h (show isClause " AND " [.word "AND"] = true by decide) hzs
  refine ⟨_, hhigh, ?_⟩
  simpa using hx.between hy hz

theorem ReadsText.isNull (hs : ReadsText d g s x) :
    ReadsText d g (Term.parenthesised s ++ " IS NULL") (.isNull x) := by
  obtain ⟨xs, hlexes, hread⟩ := hs
  have hphrase : Lexes d IsIdle " IS NULL" [.word "IS", .word "NULL"] IsSettled :=
    Lexes.append (Lexes.phrase h (show isPhrase " IS " [.word "IS"] .idle = true by decide))
      (lexes_word h (show IsWord "NULL" by decide))
  exact ⟨_, (lexes_parenthesised h hlexes).alone.append hphrase, hread.parenthesised.isNull⟩

/-! ### Lists -/

theorem exists_lexes_listed {texts : List String} {trees : List Tree}
    (htexts : List.Forall₂ (ReadsText d g) texts trees) :
    ∃ xss, Lexes d IsIdle (Term.listed texts) (joined (.mark ",") xss) IsSettled ∧
      List.Forall₂ g.ReadsExpr xss trees := by
  obtain ⟨xss, hlexes, hread⟩ := exists_forall₂_of_forall₂ htexts
  exact ⟨xss, lexes_intercalate h (by decide) hlexes, hread⟩

theorem readsBeside_call {w : String} (hword : IsWord w) (hw : IsFunction w) {texts : List String}
    {trees : List Tree} (htexts : List.Forall₂ (ReadsText d g) texts trees) :
    ReadsBeside d g false (w ++ Term.parenthesised (Term.listed texts)) (.call w trees) := by
  obtain ⟨xss, hlexes, hread⟩ := exists_lexes_listed h htexts
  exact ⟨_, lexes_called h hword hlexes, readsOperand_call hw hread⟩

theorem ReadsBeside.member (hs : ReadsBeside d g false s x) {texts : List String}
    {trees : List Tree} (htexts : List.Forall₂ (ReadsText d g) texts trees) (hsome : texts ≠ []) :
    ReadsText d g (s ++ " IN " ++ Term.parenthesised (Term.listed texts)) (.member x trees) := by
  obtain ⟨xs, hxs, hx⟩ := hs
  obtain ⟨xss, hlexes, hread⟩ := exists_forall₂_of_forall₂ htexts
  have hlisted := lexes_intercalate h (show isClause ", " [.mark ","] = true by decide) hlexes
  have hin : isClause " IN " [.word "IN"] = true := by decide
  have hsome : xss ≠ [] := by
    rintro rfl
    exact hsome (List.forall₂_nil_right_iff.1 hlexes)
  refine ⟨_, hxs.join h hin (lexes_parenthesised h hlisted).alone.settled, ?_⟩
  exact hx.member (readsItems hread hsome)

theorem ReadsBeside.member_operand (hs : ReadsBeside d g false s x)
    (hs' : ReadsBeside d g negated s' y) :
    ReadsText d g (s ++ " IN " ++ s') (.member x [y]) := by
  obtain ⟨xs, hxs, hx⟩ := hs
  obtain ⟨ys, hys, hy⟩ := hs'
  have hin : isClause " IN " [.word "IN"] = true := by decide
  exact ⟨_, hxs.join h hin hys, hx.member_operand hy⟩

theorem readsText_chain {texts : List String} {trees : List Tree}
    (htexts : ForallToLast (ReadsBeside d g false) (ReadsBeside d g true) (s :: texts)
      (x :: trees)) :
    ReadsText d g (String.intercalate " || " (s :: texts)) (g.chain "||" x trees) := by
  obtain ⟨_, hlexes, hread⟩ := htexts.exists_between
  have hop : IsOperator "||" := .inr (.inr (by decide))
  have hall := lexes_intercalate h (show isClause " || " [.mark "||"] = true by decide) hlexes
  cases hlexes with
  | cons => exact ⟨_, hall, readsExpr_chain hop hread⟩

end

/-! ## Readings of terms -/

/-- A term whose text is the same wherever it stands. -/
theorem Reads.of_same (htail : t.tail = tail) (hs : ∀ nested, t.text nested = s)
    (hread : ReadsBeside d g tail.isOpen s x) : Reads d g tail t x := by
  refine ⟨htail, ?_, ?_⟩
  · rwa [hs]
  · rw [hs]
    exact hread.readsText

/-- What stands in front of an operator that binds more tightly than `NOT`. -/
theorem Reads.leads (ht : Reads d g tail t x) (hclosed : tail.isOpen = false) :
    ReadsBeside d g false (t.text true) x := by
  have hread := ht.operand
  rwa [hclosed] at hread

/-- What stands last. -/
theorem Reads.ends (ht : Reads d g tail t x) : ReadsBeside d g true (t.text true) x := by
  obtain ⟨xs, hlexes, hread⟩ := ht.operand
  exact ⟨xs, hlexes, hread.opened⟩

theorem reads_literal {text : String} (htext : LexesLiteral d text) :
    Reads d g .closed (.literal text) (literalTree text) :=
  .of_same rfl (fun _ => rfl) (readsBeside_literal htext)

section

variable (h : IsPlain d)

include h

/-- A term that is in parentheses where it is an operand. -/
theorem Reads.of_wrapped (htail : t.tail = .closed)
    (hs : ∀ nested, t.text nested = Term.parenthesisedIf nested s) (hread : ReadsText d g s x) :
    Reads d g .closed t x := by
  refine ⟨htail, ?_, ?_⟩
  · rw [hs]
    exact hread.parenthesised h
  · rwa [hs]

theorem reads_column {qualifier : Option String} {name quoted : String}
    (hquoted : d.quoteQualified qualifier name = .ok quoted) :
    Reads d g .closed (.column quoted) (.column qualifier name) := by
  have hlexes := (lexes_quoteQualified h hquoted).weaken (fun _ hl => hl) fun _ => IsNamed.isSettled
  exact .of_same rfl (fun _ => rfl) ⟨_, hlexes, readsOperand_column qualifier name⟩

theorem reads_apply {w : String} (hword : IsWord w) (hw : IsFunction w) {args : List Term}
    {trees : List Tree}
    (hargs : List.Forall₂ (fun t tree => ReadsText d g (t.text false) tree) args trees) :
    Reads d g .closed (.apply w args) (.call w trees) := by
  have htexts := List.forall₂_map_left_iff.2 hargs
  rw [← Term.texts_eq_map] at htexts
  exact .of_same rfl (fun _ => by rw [Term.text]) (readsBeside_call h hword hw htexts)

theorem reads_countStar : Reads d g .closed .countStar (.callAll "COUNT") := by
  have hphrase :
      Lexes d IsIdle "COUNT(*)" [.word "COUNT", .mark "(", .mark "*", .mark ")"] IsIdle :=
    Lexes.phrase h (by decide)
  exact .of_same rfl (fun _ => by rw [Term.text])
    ⟨_, hphrase.settled, readsOperand_callAll (by decide)⟩

theorem reads_countDistinct {args : List Term} {trees : List Tree}
    (hargs : List.Forall₂ (fun t tree => ReadsText d g (t.text false) tree) args trees)
    (hsome : args ≠ []) : Reads d g .closed (.countDistinct args) (.callDistinct "COUNT" trees) := by
  have htexts := List.forall₂_map_left_iff.2 hargs
  rw [← Term.texts_eq_map] at htexts
  obtain ⟨xss, hlexes, hread⟩ := exists_lexes_listed h htexts
  have hdistinct : Lexes d IsIdle "DISTINCT " [.word "DISTINCT"] IsIdle :=
    Lexes.phrase h (by decide)
  have hsome : xss ≠ [] := by
    rintro rfl
    have htrees := List.forall₂_nil_left_iff.1 hread
    exact hsome (List.forall₂_nil_right_iff.1 (htrees ▸ hargs))
  have hcall := lexes_called h (show IsWord "COUNT" by decide) (hdistinct.append hlexes)
  exact .of_same rfl (fun _ => by rw [Term.text])
    ⟨_, hcall, readsOperand_callDistinct (by decide) hread hsome⟩

theorem reads_substringFor (hs : ReadsText d g (t.text false) x) (start length : Int64) :
    Reads d g .closed (.substringFor t start length)
      (.call "SUBSTRING"
        [x, literalTree (toString start.toInt), literalTree (toString length.toInt)]) := by
  have hnumber : ∀ n : Int64, ReadsBeside d g false (toString n.toInt) _ := fun n =>
    readsBeside_literal (lexesLiteral_signed h (isSigned_toString n.toInt))
  obtain ⟨xs, hxs, hx⟩ := hs
  obtain ⟨ys, hys, hy⟩ := (hnumber start).readsText
  obtain ⟨zs, hzs, hz⟩ := (hnumber length).readsText
  have hfrom := hxs.join h (show isClause " FROM " [.word "FROM"] = true by decide) hys
  have hfor := hfrom.join h (show isClause " FOR " [.word "FOR"] = true by decide) hzs
  have hcall := lexes_called h (show IsWord "SUBSTRING" by decide) hfor
  refine .of_same rfl (fun _ => by rw [Term.text]) ⟨_, hcall, ?_⟩
  simpa using readsOperand_part (w := "SUBSTRING") (by decide) hx hy hz

theorem reads_cast {type : String} (htype : IsWord type) (hs : ReadsText d g (t.text false) x) :
    Reads d g .closed (.cast t type) (.cast x type) := by
  obtain ⟨xs, hxs, hx⟩ := hs
  have has := hxs.join h (show isClause " AS " [.word "AS"] = true by decide) (lexes_word h htype)
  have hcall := lexes_called h (show IsWord "CAST" by decide) has
  exact .of_same rfl (fun _ => by rw [Term.text]) ⟨_, hcall, readsOperand_cast type hx⟩

theorem reads_conditional (hs : ReadsText d g (t.text false) x)
    (hs' : ReadsText d g (u.text false) y) :
    Reads d g .closed (.conditional t u none) (.conditional x y none) := by
  obtain ⟨xs, hxs, hx⟩ := hs.parenthesised h
  obtain ⟨ys, hys, hy⟩ := hs'.parenthesised h
  have hcase := lexes_caseWhen h
  have hthen := (hcase.append hxs).join h (show isClause " THEN " [.word "THEN"] = true by decide) hys
  refine .of_same rfl (fun _ => by rw [Term.text]) ⟨_, hthen.append (lexes_end h), ?_⟩
  simpa using hx.readsExpr.conditional hy.readsExpr

theorem reads_conditional_else (hs : ReadsText d g (t.text false) x)
    (hs' : ReadsText d g (u.text false) y) (hs'' : ReadsText d g (v.text false) z) :
    Reads d g .closed (.conditional t u (some v)) (.conditional x y (some z)) := by
  obtain ⟨xs, hxs, hx⟩ := hs.parenthesised h
  obtain ⟨ys, hys, hy⟩ := hs'.parenthesised h
  obtain ⟨zs, hzs, hz⟩ := hs''.parenthesised h
  have hcase := lexes_caseWhen h
  have hthen := (hcase.append hxs).join h (show isClause " THEN " [.word "THEN"] = true by decide) hys
  have helse := hthen.join h (show isClause " ELSE " [.word "ELSE"] = true by decide) hzs
  refine .of_same rfl (fun _ => by rw [Term.text]) ⟨_, helse.append (lexes_end h), ?_⟩
  simpa using hx.readsExpr.conditional_else hy.readsExpr hz.readsExpr

/-! ### Operators -/

theorem Reads.negate (ht : Reads d g tail t x) : Reads d g tail.negate (.negate t) (.negate x) := by
  have htail : (Term.negate t).tail = tail.negate := by rw [Term.tail, ht.tail_eq]
  refine .of_same htail (fun _ => by rw [Term.text]) ?_
  cases tail with
  | closed => exact ht.operand.minus h
  | not => exact ht.operand.minus h
  | minusNot => exact ht.operand.readsText.minus h (Term.head_of_minusNot ht.tail_eq)

theorem Reads.not (ht : Reads d g tail t x) : Reads d g .not (.not t) (.not x) := by
  obtain ⟨xs, hlexes, hread⟩ := ht.alone
  have hword := lexes_word h (show IsWord "NOT" by decide)
  exact .of_same rfl (fun _ => by rw [Term.text])
    ⟨_, hword.append (lexes_parenthesised h hlexes).settled, hread.parenthesised.not⟩

theorem Reads.isNull (ht : Reads d g tail t x) : Reads d g .closed (.isNull t) (.isNull x) :=
  .of_same rfl (fun _ => by rw [Term.text]) ((ht.alone.isNull h).parenthesised h)

theorem Reads.binary {op : String} (hop : IsInfix op) {left right : Tail}
    (ht : Reads d g left t x) (hu : Reads d g right u y)
    (hguards : guards op = true ∨ left.isOpen = false) :
    Reads d g .closed (.binary op t u) (.binary op x y) :=
  .of_wrapped h rfl (fun _ => by rw [Term.text]) (ht.operand.binary h hop hu.operand hguards)

theorem Reads.between {low high : Tail} (ht : Reads d g tail t x) (hclosed : tail.isOpen = false)
    (hu : Reads d g low u y) (hv : Reads d g high v z) :
    Reads d g .closed (.between t u v) (.between x y z) :=
  .of_wrapped h rfl (fun _ => by rw [Term.text])
    ((ht.leads hclosed).between h hu.operand hv.operand)

theorem Reads.inList (ht : Reads d g tail t x) (hclosed : tail.isOpen = false)
    {items : List Term} {trees : List Tree}
    (hitems : List.Forall₂ (fun t tree => ReadsText d g (t.text false) tree) items trees)
    (hsome : items ≠ []) : Reads d g .closed (.inList t items) (.member x trees) := by
  have htexts := List.forall₂_map_left_iff.2 hitems
  rw [← Term.texts_eq_map] at htexts
  have hsome : Term.texts false items ≠ [] := by
    rw [Term.texts_eq_map]
    simpa using hsome
  exact .of_wrapped h rfl (fun _ => by rw [Term.text])
    ((ht.leads hclosed).member h htexts hsome)

theorem Reads.inTerm {items : Tail} (ht : Reads d g tail t x) (hclosed : tail.isOpen = false)
    (hu : Reads d g items u y) : Reads d g .closed (.inTerm t u) (.member x [y]) :=
  .of_wrapped h rfl (fun _ => by rw [Term.text])
    ((ht.leads hclosed).member_operand h hu.operand)

/-- A part of a concatenation, of which the last one may be a `NOT`. -/
abbrev ReadsPart (d : Dialect) (g : Grammar) (negated : Bool) (t : Term) (tree : Tree) : Prop :=
  ReadsBeside d g negated (t.text true) tree

theorem reads_concat {parts : List Term} {trees : List Tree}
    (hparts : ForallToLast (ReadsPart d g false) (ReadsPart d g true) (t :: parts) (x :: trees)) :
    Reads d g .closed (.concat (t :: parts)) (g.chain "||" x trees) := by
  have htexts : ForallToLast (ReadsBeside d g false) (ReadsBeside d g true)
      ((t :: parts).map (Term.text true)) (x :: trees) := by
    refine ForallToLast.map_left ?_
    exact hparts
  rw [← Term.texts_eq_map, Term.texts] at htexts
  exact .of_wrapped h rfl (fun _ => by rw [Term.text, Term.texts]) (readsText_chain h htexts)

end

end Syntax

end SqlChain
