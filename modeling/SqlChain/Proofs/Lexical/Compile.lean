import SqlChain.Proofs.Lexical.Term
import SqlChain.Proofs.Written

/-!
# Compiled expressions

Every expression compiles to a sound term, as long as functions that the table does not know are an
error: a term that is written is sound if all words are.
-/

namespace SqlChain.Lexical

/-- A compiler whose texts can be scanned, whatever it compiles. -/
structure IsStrict (c : Compiler) : Prop extends IsReadable c.dialect where
  strict : c.config.strictSql = true
  words : ∀ entry ∈ c.functions.entries, ∀ w ∈ entry.form.words, isWord 0 w 0 = true

theorem isStrict_builtin (b : Backend) {config : Config} (h : config.strictSql = true) :
    IsStrict (.builtin b.dialect config) where
  toIsReadable := isReadable_dialect b
  strict := h
  words := by
    change ∀ entry ∈ FunctionTable.builtin.entries, _
    decide

variable {c : Compiler}

theorem isSound_literal (h : IsReadable c.dialect) (value : Scalar) :
    IsSound c.dialect (c.literal value) :=
  .literal (isClosed_literal h _ value)

theorem isWord_of_mem_words (h : IsStrict c) {w : String} (hw : w ∈ c.words) :
    isWord 0 w 0 = true := by
  have hfixed : ∀ w ∈ ["NULL_IF", "SUBSTR", "SUBSTRING", "MIN", "MAX", "LOG", "CONCAT", "NTILE"],
      isWord 0 w 0 = true := by decide
  rcases List.mem_append.1 hw with hw | hw
  · rcases List.mem_append (s := ["NULL_IF", "SUBSTR", "SUBSTRING", "MIN", "MAX", "LOG", "CONCAT",
      "NTILE"]).1 hw with hw | hw
    · exact hfixed w hw
    · rw [List.mem_singleton.1 hw]
      exact h.length_word
  · obtain ⟨entry, hentry, hw⟩ := List.mem_flatMap.1 hw
    exact h.words entry hentry w hw

/-- Windows and counts of distinct values make no difference. -/
theorem isSound_of_isWritten (h : IsStrict c) {windows distinct : Prop} {t : Term}
    (ht : c.IsWritten windows distinct t) : IsSound c.dialect t := by
  have hname : ∀ {s : String}, c.IsName s → IsClosed c.dialect s := by
    rintro s ⟨qualifier, name, hquoted⟩
    exact isClosed_quoteQualified h.toIsReadable hquoted
  induction ht with
  | column hs => exact .column (hname hs)
  | literal value => exact isSound_literal h.toIsReadable value
  | number n => exact .literal (isClosed_toString h.toHasQuotes n.toInt)
  | apply hw _ ih => exact .apply (isWord_of_mem_words h hw) ih
  | countStar => exact .countStar
  | countDistinct _ ih => exact .countDistinct ih
  | substringFor _ _ _ ih => exact .substringFor ih
  | cast _ htype ih => exact .cast ih (isWord_of_mem_words h htype)
  | conditional _ _ _ hcondition hvalue hotherwise =>
      exact .conditional hcondition hvalue hotherwise
  | negate _ ih => exact .negate ih
  | not _ ih => exact .not ih
  | isNull _ ih => exact .isNull ih
  | binary op _ _ hleft hright => exact .binary (isClosed_sql h.toHasQuotes op) hleft hright
  | between _ _ _ hoperand hlow hhigh => exact .between hoperand hlow hhigh
  | inList _ _ hoperand hitems => exact .inList hoperand hitems
  | inTerm _ _ hoperand hitems => exact .inTerm hoperand hitems
  | concat _ _ ih => exact .concat ih
  | windowed _ _ _ _ hpartition _ hbody horder =>
      exact .windowed hbody (fun s hs => hname (hpartition s hs)) horder
  | descending _ ih => exact .descending ih

/-! ## Texts -/

theorem ensures_term (h : IsStrict c) (context : Context) (e : Expr) :
    (c.term context.qualifier e (c.frame context)).Ensures (IsSound c.dialect) := by
  have hterm : Written.Writes c True True (c.term context.qualifier e (c.frame context)) :=
    Written.ensures_term h.strict context e (fun _ => .intro) fun _ _ => .intro
  exact hterm.imp fun _ => isSound_of_isWritten h

theorem ensures_compile (h : IsStrict c) (context : Context) (e : Expr) :
    (c.compile context e).Ensures (IsClosed c.dialect) :=
  (ensures_term h context e).bind fun _ ht => .pure (ht.isClosed_text h.toHasQuotes false)

theorem ensures_compileOperand (h : IsStrict c) (context : Context) (e : Expr) :
    (c.compileOperand context e).Ensures (IsClosed c.dialect) :=
  (ensures_term h context e).bind fun _ ht => .pure (ht.isClosed_text h.toHasQuotes true)

theorem ensures_compileKeys (h : IsStrict c) (context : Context) (keys : List Expr) :
    (c.compileKeys context keys).Ensures fun texts => ∀ s ∈ texts, IsClosed c.dialect s := by
  refine .mapM_forall fun key _ => ?_
  have hterm : Written.Writes c True True (c.keyTerm context.qualifier key (c.frame context)) :=
    Written.ensures_keyTerm h.strict context key (fun _ => .intro) fun _ _ => .intro
  exact hterm.bind fun _ ht => .pure ((isSound_of_isWritten h ht).isClosed_text h.toHasQuotes true)

end SqlChain.Lexical
