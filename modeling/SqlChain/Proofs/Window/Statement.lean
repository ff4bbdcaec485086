import SqlChain.Proofs.Chain.Statement
import SqlChain.Proofs.Composition
import SqlChain.Proofs.Window.Compile
import SqlChain.Proofs.Window.Place

/-!
# Windows in statements

Everything in a statement was compiled or is spelled in words, so that its lexemes nest as those of
its parts do. Without window functions there is no `OVER` in it, and with them there is none behind
a count of distinct values.
-/

namespace SqlChain

open Syntax Lexer

variable {c : Compiler}

/-- Tidy texts are put together to tidy texts. -/
theorem composes_isTidy {d : Dialect} {windows : Bool} (h : IsPlain d) :
    Composes d (IsTidy d windows) where
  empty := (Spans.empty IsIdle).settled
  one := by
    have hnumber : toString (1 : Int64).toInt = "1" := by decide
    exact hnumber ▸ isTidy_number h 1
  name := isTidy_quoteQualified h
  join := by
    have hclauses : ∀ clause ∈ connectives, IsTidyClause d windows clause := by
      simp only [connectives, List.forall_mem_cons]
      exact ⟨isTidyClause h [.word "AS"] (by decide), isTidyClause h [.word "FROM"] (by decide),
        isTidyClause h [.word "WHERE"] (by decide), isTidyClause h [.word "AND"] (by decide),
        isTidyClause h [.word "OR"] (by decide), isTidyClause h [.mark ","] (by decide),
        isTidyClause h [.mark "="] (by decide), isTidyClause h [.mark ">"] (by decide),
        isTidyClause h [.mark "<"] (by decide), isTidyClause h [.mark "+"] (by decide),
        isTidyClause h [.word "IS", .word "NULL", .word "AND"] (by decide),
        isTidyClause h [.word "LEFT", .word "JOIN"] (by decide),
        isTidyClause h [.word "ON"] (by decide),
        isTidyClause h [.word "GROUP", .word "BY"] (by decide),
        isTidyClause h [.word "ORDER", .word "BY"] (by decide), by simp⟩
    exact fun clause hclause _ _ hs ht => hs.join (hclauses clause hclause) ht
  parenthesised hs := (isTidy_parenthesised h hs).alone.settled
  isNull hs := by
    have hnull : IsTidyTail d windows " IS NULL" :=
      (isTidyClause h (s := " IS ") [.word "IS"] (by decide)).append
        (isTidy_word h (w := "NULL") (by decide))
    exact hs.append hnull
  countAll := isTidy_countStar h
  countDistinct {s} hs := by
    have hcall : "COUNT(DISTINCT " ++ s ++ ")" =
        "COUNT" ++ Term.parenthesised ("DISTINCT " ++ s) := by
      apply String.toList_injective
      simp [Term.parenthesised]
    rw [hcall]
    exact isTidy_countDistinct h hs
  select hs := (spans_head h [.word "SELECT"] (by decide)).append hs
  selectAll hs := (spans_head h [.word "SELECT", .mark "*", .word "FROM"] (by decide)).append hs

/-! ## Levels -/

section

variable (h : IsFree c)

include h

theorem isTidy_fragment {f : Fragment} (hspelled : f.IsSpelled c) (hplaced : f.IsPlaced c) :
    IsTidy c.dialect c.hasWindows f.sql := by
  obtain ⟨warnings, later, hrun⟩ := hspelled
  have htidy : (c.compile { window := f.window, qualifier := none } f.expr).Ensures
      (IsTidy c.dialect c.hasWindows) := ensures_compile_tidy h hplaced
  exact htidy warnings f.sql later hrun

theorem isTidy_rank {source : String} (hsource : IsTidy c.dialect c.hasWindows source)
    {r : CorrelatedRank} (hspelled : r.IsSpelled c source) :
    IsTidy c.dialect c.hasWindows r.sql := by
  obtain ⟨inner, outer, same, table, ⟨w, w', hinner⟩, ⟨v, v', houter⟩, hsame, htable, hsql⟩ :=
    hspelled
  have hcomposes : Composes c.dialect (IsTidy c.dialect c.hasWindows) := composes_isTidy h.plain
  have hinner := ensures_compileOperand_tidy h (by simp [Context.qualified]) w inner w' hinner
  have houter := ensures_compileOperand_tidy h (by simp [Context.qualified]) v outer v' houter
  rw [hsql]
  exact hcomposes.rank hinner houter hsource htable (hcomposes.matchGroups hsame)

theorem isPutTogether_of_isPlaced {level : Level} (hspelled : level.IsSpelled c)
    (hplaced : level.body.IsPlaced c) :
    level.IsPutTogether c.dialect (IsTidy c.dialect c.hasWindows) where
  computed item hitem f hf := by
    have hitemSpelled := hspelled.items item hitem
    rw [Level.IsSpelledItem, hf] at hitemSpelled
    exact isTidy_fragment h hitemSpelled (hplaced.items item hitem f hf)
  rank item hitem r hr hleft := by
    have hitemSpelled := hspelled.items item hitem
    rw [Level.IsSpelledItem, hr] at hitemSpelled
    obtain ⟨left, source, hside, hsource, hrank⟩ := hitemSpelled
    exact isTidy_rank h (hleft left source hside hsource) hrank
  filters f hf := by
    obtain ⟨hwindow, _⟩ := hplaced.filters f hf
    exact isTidy_fragment h (hspelled.filters f hf) (by simp [Fragment.IsPlaced, hwindow])
  matching on hon := (composes_isTidy h.plain).matching (hspelled.matching on hon)

/-- A statement that shows a state in which windows are where they may be. -/
theorem isTidy_of_shows {source : Source} {s : State} (hs : Reached c source s)
    (hplaced : s.level.IsPlaced c) {r : Rendered} {dropped : List Warning}
    (hr : r.Shows c s dropped) : IsTidy c.dialect c.hasWindows r.sql := by
  obtain ⟨select, keys, hselect, hkeys, hsql⟩ := hr.sql
  have hcomposes : Composes c.dialect (IsTidy c.dialect c.hasWindows) := composes_isTidy h.plain
  have hlevel := hcomposes.render (fun inner hinner =>
    isPutTogether_of_isPlaced h (hs.isSound inner hinner).2 (hplaced inner hinner)) hselect
  have htidy : ∀ key ∈ keys, IsTidy c.dialect c.hasWindows key := by
    refine forall_of_forall₂ (hkeys.imp ?_)
    rintro key text ⟨warnings, later, hrun⟩
    exact ensures_compileKey_tidy h (by simp [Context.scalar]) warnings text later hrun
  rw [hsql]
  exact hcomposes.orderBy htidy hlevel

end

/-! ## Queries -/

namespace Query

variable {q : Query} {mode : Mode} {dialect : Dialect} {config : Config} {r : Rendered}

theorem isTidy_render (h : IsFree (.builtin dialect config))
    (hr : q.render mode dialect config = .ok r) :
    IsTidy dialect dialect.features.windowFunctions r.sql := by
  have hc := Compiler.looksAtAll_builtin dialect config
  have hlevel : ∀ s built shown between,
      (Compiler.build (.builtin dialect config) q).run .start = .ok (s, built) →
      (arranged (.builtin dialect config) mode s).run built = .ok (shown, between) →
      shown.level.IsPlaced (.builtin dialect config) ∧
        ∀ name, (shown.level.wrap name).IsPlaced (.builtin dialect config) := by
    intro s built shown between hbuild harranged
    have hs := (Logged.places_build hc q).ensures (Logged.erases_build q) .start s built hbuild
    have hshown := (Logged.places_arranged hc hs mode).ensures (Logged.erases_arranged mode s)
      built shown between harranged
    exact ⟨hshown, hshown.wrap⟩
  obtain ⟨s, ⟨hs, _, hshows⟩, hplaced⟩ := exists_of_render_level hr hlevel
  exact isTidy_of_shows h hs hplaced hshows

/-- Windows are only where they may be, in any chain and however it ends. Everything that is
compiled on the way is compiled where it may be, and no level has windows without window functions;
this is about the builder itself, which does with a log what it does without one. Where only known
functions are written, the statement has no `OVER` without window functions, and never one behind a
count of distinct values. -/
theorem windows_placed (q : Query) (mode : Mode) (config : Config) :
    (∀ dialect : Dialect,
      (∀ event ∈ q.events (.builtin dialect config) mode,
        event.IsPlaced (.builtin dialect config)) ∧
      (Logged.rendering (.builtin dialect config) mode q).Erases
        (rendering (.builtin dialect config) mode q)) ∧
    (∀ b : Backend, IsOrdinary b.dialect ∧ IsOrdinary b.dialect.withoutWindowFunctions) ∧
    (config.strictSql = true → ∀ dialect : Dialect, IsOrdinary dialect →
      ∀ r, q.render mode dialect config = .ok r → ∃ xs, lexemes dialect r.sql = some xs ∧
        (dialect.features.windowFunctions = false → .word "OVER" ∉ xs) ∧
        ¬ CountsDistinctOver xs) := by
  refine ⟨fun dialect => ?_, fun b => ?_, fun hstrict dialect hdialect r hr => ?_⟩
  · exact ⟨isPlaced_of_mem_events (Compiler.looksAtAll_builtin dialect config) q mode,
      Logged.erases_rendering mode q⟩
  · exact ⟨isOrdinary_dialect b, (isOrdinary_dialect b).withoutWindowFunctions⟩
  · obtain ⟨xs, hxs, hnests⟩ := isTidy_render (isFree_builtin hdialect hstrict) hr
    refine ⟨xs, lexemes_of_lexes hxs, fun hwindows => ?_, hnests.not_countsDistinctOver⟩
    rw [hwindows] at hnests
    exact hnests.not_mem_over

/-- Distinct values of a sum over a window are counted. -/
def sumsCounted : Query where
  source := { schema := none, name := "t", columns := ["x"] }
  ops := [
    .mutate [("y", .plainCall "sum" [.column "x"])],
    .summarise [("k", .plainCall "n_distinct" [.column "y"])]]

theorem windows_placed_sumsCounted :
    (∃ r xs, sumsCounted.render .plain .ansi { Config.default with strictSql := true } = .ok r ∧
      lexemes .ansi r.sql = some xs ∧ .word "OVER" ∈ xs ∧ .word "DISTINCT" ∈ xs ∧
      ¬ CountsDistinctOver xs) ∧
    ∃ r xs, sumsCounted.render .plain .odbc { Config.default with strictSql := true } = .ok r ∧
      lexemes .odbc r.sql = some xs ∧ .word "OVER" ∉ xs := by
  obtain ⟨_, hdialects, hstatement⟩ :=
    windows_placed sumsCounted .plain { Config.default with strictSql := true }
  obtain ⟨r, hr⟩ := exists_of_isOk (r := sumsCounted.render .plain .ansi
    { Config.default with strictSql := true }) (by decide +kernel)
  obtain ⟨r', hr'⟩ := exists_of_isOk (r := sumsCounted.render .plain .odbc
    { Config.default with strictSql := true }) (by decide +kernel)
  obtain ⟨xs, hxs, _, hcounts⟩ := hstatement rfl .ansi (hdialects .ansi).1 r hr
  obtain ⟨ys, hys, hover, _⟩ := hstatement rfl .odbc (hdialects .odbc).1 r' hr'
  have hwords : ((sumsCounted.render .plain .ansi
      { Config.default with strictSql := true }).toOption.any fun r =>
        (lexemes .ansi r.sql).any fun xs =>
          xs.contains (.word "OVER") && xs.contains (.word "DISTINCT")) = true := by
    decide +kernel
  rw [hr] at hwords
  change ((lexemes .ansi r.sql).any fun xs =>
    xs.contains (.word "OVER") && xs.contains (.word "DISTINCT")) = true at hwords
  rw [hxs] at hwords
  obtain ⟨hwindow, hdistinct⟩ := Bool.and_eq_true_iff.1 hwords
  exact ⟨⟨r, xs, hr, hxs, List.contains_iff_mem.1 hwindow, List.contains_iff_mem.1 hdistinct,
    hcounts⟩, r', ys, hr', hys, hover rfl⟩

end Query

end SqlChain
