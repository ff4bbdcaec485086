import SqlChain.Proofs.Window.Text
import SqlChain.Proofs.Written

/-!
# Windows in compiled expressions

A term that is written has a text of which the lexemes nest, with an `OVER` only behind a call with
all its arguments and only where windows are allowed.
-/

namespace SqlChain.Syntax

open Grammar

/-- A dialect that is spelled as the known ones are. -/
structure IsOrdinary (d : Dialect) : Prop where
  plain : IsPlain d
  length : IsFreeWord d.lengthFunction

theorem isOrdinary_dialect (b : Backend) : IsOrdinary b.dialect where
  plain := isPlain_dialect b
  length := by cases b <;> decide

theorem IsOrdinary.withoutWindowFunctions {d : Dialect} (h : IsOrdinary d) :
    IsOrdinary d.withoutWindowFunctions where
  plain := { h.plain with }
  length := h.length

/-- A compiler whose words may stand anywhere. -/
structure IsFree (c : Compiler) : Prop where
  plain : IsPlain c.dialect
  strict : c.config.strictSql = true
  words : ∀ w ∈ c.words, IsFreeWord w
  concat : ¬ c.ConcatsNothing

theorem isFree_builtin {d : Dialect} (h : IsOrdinary d) {config : Config}
    (hstrict : config.strictSql = true) : IsFree (.builtin d config) where
  plain := h.plain
  strict := hstrict
  words := by
    have hfixed : ∀ w ∈ ["NULL_IF", "SUBSTR", "SUBSTRING", "MIN", "MAX", "LOG", "CONCAT", "NTILE"],
        IsFreeWord w := by decide
    have htable : ∀ entry ∈ FunctionTable.builtin.entries, ∀ w ∈ entry.form.words,
        IsFreeWord w := by decide +kernel
    refine List.forall_mem_append.2 ⟨?_, fun w hw => ?_⟩
    · have hall := List.forall_mem_append.2 ⟨hfixed, List.forall_mem_singleton.2 h.length⟩
      exact hall
    · obtain ⟨entry, hentry, hw⟩ := List.mem_flatMap.1 hw
      exact htable entry hentry w hw
  concat := by
    have hsome : ∀ entry ∈ FunctionTable.builtin.entries, entry.form.isConcat = true →
        entry.arity.accepts 0 = false := by decide +kernel
    rintro ⟨entry, hentry, hconcat, haccepts⟩
    simp [hsome entry hentry hconcat] at haccepts

variable {c : Compiler} {windows : Bool}

/-- A term that is written is tidy, and a window may be put behind it if it is a call. -/
theorem isTidyTerm_of_isWritten (h : IsFree c) {t : Term}
    (ht : c.IsWritten (windows = true) False t) :
    IsTidyTerm c.dialect windows t ∧
      (t.isCall = true → IsCallText c.dialect windows (t.text false)) := by
  have hname : ∀ {s : String}, c.IsName s → IsTidy c.dialect windows s := by
    rintro s ⟨qualifier, name, hquoted⟩
    exact isTidy_quoteQualified h.plain hquoted
  have other : ∀ {t : Term}, t.isCall = false → IsTidyTerm c.dialect windows t →
      IsTidyTerm c.dialect windows t ∧
        (t.isCall = true → IsCallText c.dialect windows (t.text false)) := by
    intro t hcall ht
    exact ⟨ht, by simp [hcall]⟩
  induction ht with
  | column hs =>
      obtain ⟨qualifier, name, hquoted⟩ := hs
      exact other rfl (isTidyTerm_column h.plain hquoted)
  | literal value =>
      exact other rfl (isTidyTerm_literal (lexesLiteral_literal h.plain _ value))
  | number n =>
      exact other rfl (isTidyTerm_literal (lexesLiteral_signed h.plain (isSigned_toString n.toInt)))
  | apply hw _ ih =>
      have hargs := fun t ht => (ih t ht).1
      exact ⟨isTidyTerm_apply h.plain (h.words _ hw) hargs,
        fun _ => isCallText_apply h.plain (h.words _ hw) hargs⟩
  | countStar => exact ⟨isTidyTerm_countStar h.plain, fun _ => isCallText_countStar h.plain⟩
  | countDistinct _ ih =>
      exact other rfl (isTidyTerm_countDistinct h.plain fun t ht => (ih t ht).1)
  | substringFor start length _ ih =>
      exact other rfl (isTidyTerm_substringFor h.plain ih.1 start length)
  | cast _ htype ih => exact other rfl (isTidyTerm_cast h.plain (h.words _ htype) ih.1)
  | conditional _ _ _ hcondition hvalue hotherwise =>
      exact other rfl (isTidyTerm_conditional h.plain hcondition.1 hvalue.1
        fun t ht => (hotherwise t ht).1)
  | negate _ ih => exact other rfl (isTidyTerm_negate h.plain ih.1)
  | not _ ih => exact other rfl (isTidyTerm_not h.plain ih.1)
  | isNull _ ih => exact other rfl (isTidyTerm_isNull h.plain ih.1)
  | binary op _ _ hleft hright =>
      have hop : isFreeClause (" " ++ op.sql ++ " ") [operatorLexeme op.sql] = true := by
        cases op <;> decide
      exact other rfl (isTidyTerm_binary h.plain (isTidyClause h.plain _ hop) hleft.1 hright.1)
  | between _ _ _ hoperand hlow hhigh =>
      exact other rfl (isTidyTerm_between h.plain hoperand.1 hlow.1 hhigh.1)
  | inList _ _ hoperand hitems =>
      exact other rfl (isTidyTerm_inList h.plain hoperand.1 fun t ht => (hitems t ht).1)
  | inTerm _ _ hoperand hitems => exact other rfl (isTidyTerm_inTerm h.plain hoperand.1 hitems.1)
  | concat hsome _ ih =>
      exact other rfl (isTidyTerm_concat h.plain (fun hnone => h.concat (hsome hnone))
        fun t ht => (ih t ht).1)
  | windowed running hwindows hcall _ hpartition _ hbody horder =>
      subst hwindows
      exact other rfl (isTidyTerm_windowed h.plain (hbody.2 (hcall.resolve_right id))
        (fun s hs => hname (hpartition s hs)) (fun t ht => (horder t ht).1) running)
  | descending _ ih => exact other rfl (isTidyTerm_descending h.plain ih.1)

/-! ## Texts -/

section

variable (h : IsFree c) {context : Context} {e : Expr}
  (hwindow : context.window.isSome = true → c.hasWindows = true ∧ c.needsJoin e = false)

include h hwindow

theorem ensures_term_tidy :
    (c.term context.qualifier e (c.frame context)).Ensures
      (IsTidyTerm c.dialect c.hasWindows) := by
  have hterm : Written.Writes c (c.hasWindows = true) False
      (c.term context.qualifier e (c.frame context)) :=
    Written.ensures_term h.strict context e (fun hsome => (hwindow hsome).1)
      fun hsome hjoin => by simp [(hwindow hsome).2] at hjoin
  exact hterm.imp fun _ ht => (isTidyTerm_of_isWritten h ht).1

theorem ensures_compile_tidy :
    (c.compile context e).Ensures (IsTidy c.dialect c.hasWindows) :=
  (ensures_term_tidy h hwindow).bind fun _ ht => .pure (ht.tidy false)

theorem ensures_compileOperand_tidy :
    (c.compileOperand context e).Ensures (IsTidy c.dialect c.hasWindows) :=
  (ensures_term_tidy h hwindow).bind fun _ ht => .pure (ht.tidy true)

theorem ensures_compileKey_tidy :
    (c.compileKey context e).Ensures (IsTidy c.dialect c.hasWindows) := by
  have hterm : Written.Writes c (c.hasWindows = true) False
      (c.keyTerm context.qualifier e (c.frame context)) :=
    Written.ensures_keyTerm h.strict context e (fun hsome => (hwindow hsome).1)
      fun hsome hjoin => by simp [(hwindow hsome).2] at hjoin
  exact hterm.bind fun _ ht => .pure ((isTidyTerm_of_isWritten h ht).1.tidy true)

end

end SqlChain.Syntax
