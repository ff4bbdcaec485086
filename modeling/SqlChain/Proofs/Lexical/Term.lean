import SqlChain.Proofs.Lexical.Token
import SqlChain.Term.Basic

/-!
# Texts of terms

A term whose names, literals and words are sound has a closed text, by itself and as an operand.
-/

namespace SqlChain.Lexical

variable {d : Dialect}

/-- Within parentheses a closed text can stand anywhere. -/
theorem isFree_parenthesised (h : HasQuotes d) {s : String} (hs : IsClosed d s) :
    IsFree d (Term.parenthesised s) :=
  h.enclose (by decide) hs (by decide)

theorem isClosed_parenthesisedIf (h : HasQuotes d) (nested : Bool) {s : String}
    (hs : IsClosed d s) : IsClosed d (Term.parenthesisedIf nested s) := by
  cases nested with
  | false => exact hs
  | true => exact (isFree_parenthesised h hs).isClosed

theorem isClosed_listed (h : HasQuotes d) {texts : List String}
    (htexts : ∀ s ∈ texts, IsClosed d s) : IsClosed d (Term.listed texts) :=
  IsClosed.intercalate (h.word (by decide)) htexts

/-- A closed text that does not begin with a minus sign can stand behind one. -/
theorem run_of_head_ne {s : String} (hs : IsClosed d s) (hhead : s.toList.head? ≠ some '-')
    (depth : Nat) :
    ∃ next, run d ⟨.outside (some '-'), depth⟩ s.toList = some ⟨next, depth⟩ ∧ next.IsOutside := by
  cases hlist : s.toList with
  | nil => exact ⟨.outside (some '-'), rfl, rfl⟩
  | cons c cs =>
      have hc : c ≠ '-' := by
        rintro rfl
        exact hhead (by simp [hlist])
      have hminus : ¬ opensComment (some '-') c := by simp [opensComment, hc]
      have hnone : ¬ opensComment none c := by simp [opensComment]
      have hstep : step d ⟨.outside (some '-'), depth⟩ c = step d ⟨.outside none, depth⟩ c := by
        simp only [step, stepOutside, if_neg hminus, if_neg hnone]
      have hrun := hs (.outside none) depth ⟨none, rfl, by simp, by simp⟩
      rw [hlist] at hrun
      rw [run, hstep]
      exact hrun

theorem isClosed_negated (h : HasQuotes d) {s : String} (hs : IsClosed d s) :
    IsClosed d (Term.negated s) := by
  rw [Term.negated]
  have hminus := h.sign (c := '-') (by decide)
  split
  · exact hminus.append (isFree_parenthesised h hs).isTail
  · rename_i hhead
    rintro place n ⟨last, rfl, hlast, _⟩
    obtain ⟨next, hnext, hout⟩ := run_of_head_ne hs hhead n
    have hopen : '-' ≠ d.openQuote := by
      intro hopen
      exact absurd h.open_mem (by rw [← hopen]; decide)
    have hstep : step d ⟨.outside last, n⟩ '-' = some ⟨.outside (some '-'), n⟩ := by
      simp [step, stepOutside, hopen, opensComment, hlast]
    refine ⟨next, ?_, hout⟩
    rw [String.toList_append]
    change run d ⟨.outside last, n⟩ ('-' :: s.toList) = _
    rw [run, hstep]
    exact hnext

theorem isClosed_sql (h : HasQuotes d) (op : BinaryOp) : IsClosed d op.sql := by
  cases op
  case add => exact h.sign (c := '+') (by decide)
  case sub => exact h.sign (c := '-') (by decide)
  case mul => exact h.sign (c := '*') (by decide)
  case div => exact h.sign (c := '/') (by decide)
  all_goals exact (h.word (by decide)).isClosed

/-! ## Terms -/

/-- Names and literals are closed texts, and functions, types and operators are written in words. -/
inductive IsSound (d : Dialect) : Term → Prop where
  | column {s : String} (hs : IsClosed d s) : IsSound d (.column s)
  | literal {s : String} (hs : IsClosed d s) : IsSound d (.literal s)
  | apply {function : String} {args : List Term} (hfunction : isWord 0 function 0 = true)
      (hargs : ∀ t ∈ args, IsSound d t) : IsSound d (.apply function args)
  | countStar : IsSound d .countStar
  | countDistinct {args : List Term} (hargs : ∀ t ∈ args, IsSound d t) :
      IsSound d (.countDistinct args)
  | substringFor {string : Term} {start length : Int64} (hstring : IsSound d string) :
      IsSound d (.substringFor string start length)
  | cast {operand : Term} {type : String} (hoperand : IsSound d operand)
      (htype : isWord 0 type 0 = true) : IsSound d (.cast operand type)
  | conditional {condition value : Term} {otherwise : Option Term}
      (hcondition : IsSound d condition) (hvalue : IsSound d value)
      (hotherwise : ∀ t ∈ otherwise, IsSound d t) :
      IsSound d (.conditional condition value otherwise)
  | negate {operand : Term} (hoperand : IsSound d operand) : IsSound d (.negate operand)
  | not {operand : Term} (hoperand : IsSound d operand) : IsSound d (.not operand)
  | isNull {operand : Term} (hoperand : IsSound d operand) : IsSound d (.isNull operand)
  | binary {op : String} {left right : Term} (hop : IsClosed d op) (hleft : IsSound d left)
      (hright : IsSound d right) : IsSound d (.binary op left right)
  | between {operand low high : Term} (hoperand : IsSound d operand) (hlow : IsSound d low)
      (hhigh : IsSound d high) : IsSound d (.between operand low high)
  | inList {operand : Term} {items : List Term} (hoperand : IsSound d operand)
      (hitems : ∀ t ∈ items, IsSound d t) : IsSound d (.inList operand items)
  | inTerm {operand items : Term} (hoperand : IsSound d operand) (hitems : IsSound d items) :
      IsSound d (.inTerm operand items)
  | concat {parts : List Term} (hparts : ∀ t ∈ parts, IsSound d t) : IsSound d (.concat parts)
  | windowed {body : Term} {partition : List String} {order : List Term} {running : Bool}
      (hbody : IsSound d body) (hpartition : ∀ s ∈ partition, IsClosed d s)
      (horder : ∀ t ∈ order, IsSound d t) : IsSound d (.windowed body partition order running)
  | descending {key : Term} (hkey : IsSound d key) : IsSound d (.descending key)

theorem isClosed_of_mem_texts {nested : Bool} {ts : List Term}
    (h : ∀ t ∈ ts, IsClosed d (t.text nested)) : ∀ s ∈ Term.texts nested ts, IsClosed d s := by
  intro s hs
  rw [Term.texts_eq_map] at hs
  obtain ⟨t, ht, rfl⟩ := List.mem_map.1 hs
  exact h t ht

theorem isClosed_windowClauses (h : HasQuotes d) {partition order : List String} (running : Bool)
    (hpartition : ∀ s ∈ partition, IsClosed d s) (horder : ∀ s ∈ order, IsClosed d s) :
    IsClosed d (String.intercalate " "
      (Term.partitionClause partition ++ Term.orderClause order running)) := by
  apply IsClosed.intercalate (h.word (by decide))
  intro s hs
  rcases List.mem_append.1 hs with hs | hs
  · rw [Term.partitionClause] at hs
    split at hs
    · cases hs
    · rw [List.mem_singleton.1 hs]
      exact (h.word (by decide)).append_closed (isClosed_listed h hpartition) |>.isClosed
  · rw [Term.orderClause] at hs
    split at hs
    · cases hs
    · rcases List.mem_cons.1 hs with rfl | hs
      · exact (h.word (by decide)).append_closed (isClosed_listed h horder) |>.isClosed
      · split at hs
        · rw [List.mem_singleton.1 hs]
          exact (h.word (by decide)).isClosed
        · cases hs

theorem IsSound.isClosed_text (h : HasQuotes d) {t : Term} (ht : IsSound d t) (nested : Bool) :
    IsClosed d (t.text nested) := by
  have word : ∀ s, isWord 0 s 0 = true → IsFree d s := fun s => h.word
  have items : ∀ {ts : List Term}, (∀ t ∈ ts, ∀ b, IsClosed d (t.text b)) →
      IsClosed d (Term.listed (Term.texts false ts)) := fun ih =>
    isClosed_listed h (isClosed_of_mem_texts fun t ht => ih t ht false)
  induction ht generalizing nested with
  | column hs => exact hs
  | literal hs => exact hs
  | apply hfunction _ ih =>
      rw [Term.text]
      exact ((word _ hfunction).append (isFree_parenthesised h (items ih))).isClosed
  | countStar =>
      rw [Term.text]
      exact (word "COUNT(*)" (by decide)).isClosed
  | countDistinct _ ih =>
      have hlist := ((word "DISTINCT " (by decide)).append_closed (items ih)).isClosed
      rw [Term.text]
      exact ((word "COUNT" (by decide)).append (isFree_parenthesised h hlist)).isClosed
  | @substringFor string start length _ ih =>
      have hfrom := (ih false).join (word " FROM " (by decide)) (isClosed_toString h start.toInt)
      have hfor := hfrom.join (word " FOR " (by decide)) (isClosed_toString h length.toInt)
      rw [Term.text]
      exact ((word "SUBSTRING" (by decide)).append (isFree_parenthesised h hfor)).isClosed
  | cast _ htype ih =>
      have has := (ih false).join (word " AS " (by decide)) (word _ htype).isClosed
      rw [Term.text]
      exact ((word "CAST" (by decide)).append (isFree_parenthesised h has)).isClosed
  | @conditional condition value otherwise _ _ _ hc hv ho =>
      have hwhen := (word "CASE WHEN " (by decide)).append (isFree_parenthesised h (hc false))
      have hthen := (hwhen.append (word " THEN " (by decide))).append
        (isFree_parenthesised h (hv false))
      cases otherwise with
      | none =>
          rw [Term.text]
          exact (hthen.append (word " END" (by decide))).isClosed
      | some otherwise =>
          have helse := (hthen.append (word " ELSE " (by decide))).append
            (isFree_parenthesised h (ho otherwise rfl false))
          rw [Term.text]
          exact (helse.append (word " END" (by decide))).isClosed
  | negate _ ih =>
      rw [Term.text]
      exact isClosed_negated h (ih true)
  | not _ ih =>
      rw [Term.text]
      exact ((word "NOT" (by decide)).append (isFree_parenthesised h (ih false))).isClosed
  | isNull _ ih =>
      have hnull := (isFree_parenthesised h (ih false)).append (word " IS NULL" (by decide))
      rw [Term.text]
      exact (isFree_parenthesised h hnull.isClosed).isClosed
  | binary hop _ _ hl hr =>
      have space := word " " (by decide)
      rw [Term.text]
      exact isClosed_parenthesisedIf h nested (((hl true).join space hop).join space (hr true))
  | between _ _ _ ho hl hh =>
      have hlow := (ho true).join (word " BETWEEN " (by decide)) (hl true)
      rw [Term.text]
      exact isClosed_parenthesisedIf h nested (hlow.join (word " AND " (by decide)) (hh true))
  | inList _ _ ho hi =>
      have hlist := (isFree_parenthesised h (items hi)).isClosed
      rw [Term.text]
      exact isClosed_parenthesisedIf h nested ((ho true).join (word " IN " (by decide)) hlist)
  | inTerm _ _ ho hi =>
      rw [Term.text]
      exact isClosed_parenthesisedIf h nested ((ho true).join (word " IN " (by decide)) (hi true))
  | concat _ ih =>
      rw [Term.text]
      apply isClosed_parenthesisedIf h nested
      apply IsClosed.intercalate (word " || " (by decide))
      exact isClosed_of_mem_texts fun t ht => ih t ht true
  | @windowed body partition order running _ hpartition _ hb ho =>
      have horder := isClosed_of_mem_texts fun t ht => ho t ht true
      have hclauses := isClosed_windowClauses h running hpartition horder
      rw [Term.text]
      exact (hb false).join (word " OVER " (by decide)) (isFree_parenthesised h hclauses).isClosed
  | descending _ ih =>
      rw [Term.text]
      exact (ih true).append_tail (word " DESC" (by decide)).isTail

end SqlChain.Lexical
