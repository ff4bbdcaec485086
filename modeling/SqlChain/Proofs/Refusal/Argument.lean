import SqlChain.Proofs.Precedence
import SqlChain.Proofs.Refusal.Kind

/-!
# Arguments that are there

A form reads its arguments by their positions and leaves it to the table that they are there. An
entry is chosen only for a number of arguments that it accepts, so none is missing as long as no
entry accepts fewer of them than its form reads. The functions that are known from the start are so,
and with them no expression and no statement comes to a missing argument (`finds_builtin`). With an
entry that is not so, a call does.
-/

namespace SqlChain

/-! ## Tables -/

namespace Arity

/-- The fewest arguments that are accepted, if any are. -/
def least : Arity → Nat
  | .exact n => n
  | .range least _ => least
  | .atLeast least => least

theorem least_le_of_accepts {a : Arity} {k : Nat} (h : a.accepts k = true) : a.least ≤ k := by
  cases a <;> simp_all [least, accepts]

end Arity

namespace FunctionTable

variable {table : FunctionTable} {name : String} {arity : Nat} {entry : FunctionEntry}

/-- No entry accepts fewer arguments than its form reads. -/
def Covers (table : FunctionTable) : Prop :=
  ∀ entry ∈ table.entries, entry.form.reads ≤ entry.arity.least

theorem covers_builtin : builtin.Covers := by
  unfold Covers
  decide +kernel

theorem Covers.reads_le (h : table.Covers) (hlookup : table.lookup name arity = .found entry) :
    entry.form.reads ≤ arity := by
  obtain ⟨hmem, _, haccepts⟩ := name_eq_of_lookup_found hlookup
  exact Nat.le_trans (h entry hmem) (Arity.least_le_of_accepts haccepts)

end FunctionTable

/-! ## Expressions -/

/-- An error that has nothing to do with missing arguments. -/
def Error.ArgumentsGiven (e : Error) : Prop := e.isMissingArgument = false

namespace CompileM

/-- The computation does not come to a missing argument, whatever has been warned of. -/
def Finds {α : Type} (m : CompileM α) : Prop := m.Meets (fun _ => True) Error.ArgumentsGiven

theorem Finds.isInherited : IsInherited (fun _ m => m.Finds) Error.ArgumentsGiven where
  others := fun _ he => he
  pure := fun _ => .pure True.intro
  throw := fun he => .throw he
  warn := by
    refine fun w => ⟨fun _ _ _ _ => True.intro, ?_⟩
    rintro warnings e later ⟨⟩
  bind_of := fun hm hp hf => Meets.bind ⟨hp, hm.fails⟩ hf

end CompileM

namespace Compiler

variable {c : Compiler}

/-- Every position that the form of a call reads has an argument. -/
theorem exists_argument_eq (hc : c.functions.Covers) {function : String}
    {args : List (Arg Operand)} {entry : FunctionEntry}
    (hlookup : c.functions.lookup function args.length = .found entry) {i : Nat}
    (hi : i < entry.form.reads) :
    ∃ arg ∈ args, args[i]? = some arg ∧ argument function args i = pure arg.value := by
  have hlength : i < args.length := Nat.lt_of_lt_of_le hi (hc.reads_le hlookup)
  have hget := List.getElem?_eq_getElem hlength
  exact ⟨args[i], List.getElem_mem hlength, hget, by rw [argument, hget]⟩

theorem provides_of_covers {E : Error → Prop} (hc : c.functions.Covers) : c.Provides E :=
  fun _ _ _ hlookup _ hi => .inl (Nat.lt_of_lt_of_le hi (hc.reads_le hlookup))

/-- The literal one, as an argument. -/
def oneOperand : Operand := .of (.literal (.int64 1)) (fun _ => pure (.literal "1")) []

/-- A table has to do so. Where an entry accepts fewer arguments than its form reads, a call over a
window misses the first argument behind those that are given. -/
theorem run_call_of_lt_reads (qualifier : Option String) {function : String} {arity : Nat}
    {entry : FunctionEntry} (hlookup : c.functions.lookup function arity = .found entry)
    (hranking : ∀ sql, entry.form ≠ .ranking sql) (harity : arity < entry.form.reads)
    (warnings : List Warning) :
    ((c.call qualifier function (List.replicate arity ⟨none, oneOperand⟩)
      (some ⟨[], pure []⟩)).run.run warnings).1 = .error (.missingArgument function arity) := by
  rw [call, List.length_replicate, hlookup]
  obtain ⟨name, accepted, form⟩ := entry
  -- each form comes to the missing argument by the arguments in front of it
  cases form with
  | ranking sql => exact absurd rfl (hranking sql)
  | unary op =>
      obtain rfl := Nat.lt_one_iff.1 harity
      cases op <;> rfl
  | binary | ntile =>
      obtain rfl | rfl := Nat.le_one_iff_eq_zero_or_eq_one.1 (Nat.le_of_lt_succ harity) <;> rfl
  | special form =>
      cases form with
      | isNull | length | cast =>
          obtain rfl := Nat.lt_one_iff.1 harity
          rfl
      | inSet | logBase =>
          obtain rfl | rfl := Nat.le_one_iff_eq_zero_or_eq_one.1 (Nat.le_of_lt_succ harity) <;> rfl
      | between | substr =>
          have hthree : arity < 3 := harity
          obtain rfl | rfl | rfl : arity = 0 ∨ arity = 1 ∨ arity = 2 := by omega
          all_goals rfl
      | _ => cases harity
  | _ => cases harity

/-- Over a window a rank can do without its argument, but the rows in front cannot be counted
without one. -/
theorem run_emulate_of_lt_reads (source : String) (groups : List String) {x : ExtractedCall}
    {sql : String} (hform : c.functions.form? x.function x.args.length = some (.ranking sql))
    (hargs : x.args.length < (SqlForm.ranking sql).reads) (p : Progress) :
    (c.emulate source groups x).run p = .error (.missingArgument x.function x.args.length) := by
  have hrank : sql = "RANK" ∨ sql = "DENSE_RANK" := by
    by_contra hother
    rw [SqlForm.reads, if_neg hother] at hargs
    cases hargs
  rw [SqlForm.reads, if_pos hrank] at hargs
  have hnone := List.length_eq_zero_iff.1 (Nat.lt_one_iff.1 hargs)
  unfold emulate
  rw [hform, hnone]
  rcases hrank with rfl | rfl <;> rfl

/-- All that a compiler with such a table writes is written without a missing argument. A rank that
is counted instead has its argument, since it was looked up for one. -/
theorem failsOnly_of_covers (hc : c.functions.Covers) : c.FailsOnly Error.ArgumentsGiven where
  identifier := fun _ _ _ => rfl
  unsupported := fun _ _ => rfl
  unranked := by
    intro function sql hform hrank
    obtain ⟨entry, hlookup, hentry⟩ := FunctionTable.form?_eq_some_iff.1 hform
    have hreads := hc.reads_le hlookup
    rw [hentry, SqlForm.reads, if_pos hrank] at hreads
    exact absurd hreads (Nat.not_succ_le_zero 0)
  compile := holds_compile CompileM.Finds.isInherited (provides_of_covers hc)
  operand := holds_compileOperand CompileM.Finds.isInherited (provides_of_covers hc)
  keys := holds_compileKeys CompileM.Finds.isInherited (provides_of_covers hc)

end Compiler

/-! ## Statements -/

theorem State.finds_checkNames (s : State) (names : List String) :
    FailsWith Error.ArgumentsGiven (s.checkNames names) := by
  rw [checkNames]
  split
  · exact .error rfl
  · exact .ok _

namespace BuildM

variable {c : Compiler} (hc : c.FailsOnly Error.ArgumentsGiven) (s : State)

theorem finds_select (idents : List Ident) : (s.select idents).Fails Error.ArgumentsGiven :=
  fails_select (s.finds_checkNames _)

theorem finds_rename (pairs : List (String × String)) :
    (Compiler.rename s pairs).Fails Error.ArgumentsGiven := by
  refine (Fails.lift (s.finds_checkNames _)).bind fun _ => ?_
  dsimp only
  split
  · exact .throw rfl
  · exact finds_select s _

theorem finds_arrange (keys : List Expr) :
    FailsWith Error.ArgumentsGiven (Compiler.arrange s keys) := by
  have hkeys : FailsWith Error.ArgumentsGiven (keys.forM s.checkReferences) := by
    induction keys with
    | nil => exact .ok _
    | cons key keys ih => exact (s.finds_checkNames _).bind fun _ => ih
  exact hkeys.bind fun _ => .ok _

include hc

theorem finds_filter (e : Expr) : (c.filter s e).Fails Error.ArgumentsGiven := by
  rw [filter_eq]
  refine (Fails.lift (s.finds_checkNames _)).bind fun _ => ?_
  split
  · refine (fails_placing hc s e).bind fun placed => ?_
    exact (fails_filterRows hc placed.2 placed.1).bind fun filtered => finds_select filtered _
  · exact fails_filterRows hc s e

theorem finds_mutate (name : String) (e : Expr) :
    (c.mutate s name e).Fails Error.ArgumentsGiven := by
  rw [mutate_eq]
  refine (Fails.lift (s.finds_checkNames _)).bind fun _ => ?_
  split
  · exact fails_assign hc s false name e
  split
  · exact fails_assign hc s true name e
  refine (fails_placing hc s e).bind fun placed => ?_
  exact (fails_assign hc placed.2 false name placed.1).bind fun assigned => finds_select assigned _

theorem finds_summarise (assignments : List (String × Expr)) :
    (c.summarise s assignments).Fails Error.ArgumentsGiven :=
  fails_summarise hc (fun _ => rfl) s fun _ _ => s.finds_checkNames _

theorem finds_step (op : Op) : (c.step s op).Fails Error.ArgumentsGiven := by
  cases op with
  | select idents => exact finds_select s idents
  | rename pairs => exact finds_rename s pairs
  | filter predicates => exact .foldlM fun s e => finds_filter hc s e
  | mutate assignments => exact .foldlM fun s a => finds_mutate hc s a.1 a.2
  | summarise assignments => exact finds_summarise hc s assignments
  | arrange keys => exact .lift (finds_arrange s keys)
  | groupBy keys add => exact .lift ((s.finds_checkNames keys).bind fun _ => .ok _)
  | ungroup => exact .pure _

theorem finds_arranged (mode : Mode) : (Query.arranged c mode s).Fails Error.ArgumentsGiven := by
  cases mode with
  | plain => exact .pure s
  | groups =>
      rw [Query.arranged, State.groupOrdered]
      split
      · exact .pure s
      · exact (finds_select s _).bind fun _ => .pure _
  | labels =>
      rw [Query.arranged, Compiler.labels]
      by_cases hgroups : s.groups.isEmpty = true
      · rw [if_pos hgroups]
        exact .throw rfl
      · rw [if_neg hgroups]
        exact (finds_summarise hc s []).bind fun _ => .pure _

omit s in
/-- The steps of a chain, one after the other, and then its end. -/
theorem finds_rendering (mode : Mode) (q : Query) :
    (Query.rendering c mode q).Fails Error.ArgumentsGiven := by
  have hbuild : (c.build q).Fails Error.ArgumentsGiven := .foldlM fun s op => finds_step hc s op
  refine hbuild.bind fun s => ?_
  exact (finds_arranged hc s mode).bind fun s => fails_finish hc s

end BuildM

namespace Compiler

/-! ## Lengths -/

/-- The number of characters between two positions is cut off only at both ends of what it may
be, and not on the way there. -/
theorem toInt_substringLength (start stop : Int64) :
    (substringLength start stop).toInt =
      min (max 0 (stop.toInt - start.toInt + 1)) Int64.maxValue.toInt := by
  have hleast : Int64.minValue.toInt = -9223372036854775808 := rfl
  have hmost : Int64.maxValue.toInt = 9223372036854775807 := rfl
  rw [substringLength, toInt_saturate, toInt_saturate]
  omega

theorem substringLength_mem (start stop : Int64) :
    0 ≤ substringLength start stop ∧ substringLength start stop ≤ Int64.maxValue := by
  have hmost : Int64.maxValue.toInt = 9223372036854775807 := rfl
  have hlength := toInt_substringLength start stop
  rw [Int64.le_iff_toInt_le, Int64.le_iff_toInt_le, Int64.toInt_zero]
  omega

/-! ## Functions that are known from the start -/

/-- With the functions that are known from the start, no argument is read that was not given. This
is so of a call of any operands of which it is so, and therefore of every expression wherever it
stands, of every call that something else stands for where there are no windows, and of every
statement. It is the table that sees to that, since with fewer arguments than its form reads, a call
fails for the first one that is not there. The length of a substring is what it should be, up to the
ends of what it may be. -/
theorem finds_builtin (dialect : Dialect) (config : Config) :
    (∀ function args entry, FunctionTable.builtin.lookup function args.length = .found entry →
      ∀ i < entry.form.reads,
        ∃ arg ∈ args, args[i]? = some arg ∧ argument function args i = pure arg.value) ∧
    (∀ qualifier function args frame,
      (∀ arg ∈ args, OperandHolds (fun _ m => m.Finds) arg.value) →
      FrameHolds (fun _ m => m.Finds) frame →
      (call (.builtin dialect config) qualifier function args frame).Finds) ∧
    (∀ context e, (compile (.builtin dialect config) context e).Finds ∧
      (compileOperand (.builtin dialect config) context e).Finds ∧
      (compileKey (.builtin dialect config) context e).Finds) ∧
    (∀ source groups x,
      (emulate (.builtin dialect config) source groups x).Fails Error.ArgumentsGiven) ∧
    (∀ q mode, FailsWith Error.ArgumentsGiven (Query.render q mode dialect config)) ∧
    (∀ functions : FunctionTable,
      (∀ qualifier function arity entry warnings,
        functions.lookup function arity = .found entry → (∀ sql, entry.form ≠ .ranking sql) →
        arity < entry.form.reads →
        ((call { dialect, config, functions } qualifier function
          (List.replicate arity ⟨none, oneOperand⟩) (some ⟨[], pure []⟩)).run.run warnings).1 =
            .error (.missingArgument function arity)) ∧
      ∀ source groups (x : ExtractedCall) sql p,
        functions.form? x.function x.args.length = some (.ranking sql) →
        x.args.length < (SqlForm.ranking sql).reads →
        (emulate { dialect, config, functions } source groups x).run p =
          .error (.missingArgument x.function x.args.length)) ∧
    ∀ start stop, (substringLength start stop).toInt =
        min (max 0 (stop.toInt - start.toInt + 1)) Int64.maxValue.toInt ∧
      0 ≤ substringLength start stop ∧ substringLength start stop ≤ Int64.maxValue := by
  have hcovers : (builtin dialect config).functions.Covers := FunctionTable.covers_builtin
  have hc := failsOnly_of_covers hcovers
  have hprovides : (builtin dialect config).Provides Error.ArgumentsGiven :=
    provides_of_covers hcovers
  refine ⟨fun function args entry hlookup i hi => exists_argument_eq hcovers hlookup hi,
    fun qualifier function args frame hargs hframe =>
      holds_call CompileM.Finds.isInherited hargs hframe hprovides qualifier,
    fun context e => ⟨hc.compile context e, hc.operand context e,
      holds_compileKey CompileM.Finds.isInherited hprovides context e⟩,
    fun source groups x => BuildM.fails_emulate hc source groups x, fun q mode e herror => ?_,
    fun functions => ⟨?_, ?_⟩,
    fun start stop => ⟨toInt_substringLength start stop, substringLength_mem start stop⟩⟩
  · exact BuildM.finds_rendering hc mode q .start e (Query.render_eq_error_iff.1 herror)
  · intro qualifier function arity entry warnings hlookup hranking harity
    exact run_call_of_lt_reads qualifier hlookup hranking harity warnings
  · intro source groups x sql p hform hargs
    exact run_emulate_of_lt_reads source groups hform hargs p

/-- A chain that reads up to three arguments of a call, and that ranks on its own where there are no
windows. -/
def rankedLogarithms : Query where
  source := { schema := none, name := "t", columns := ["s", "x"] }
  ops := [
    .filter [.plainCall "between" [.column "x", .literal (.int64 1), .literal (.int64 64)]],
    .mutate [
      ("l", .plainCall "log" [.column "x", .literal (.int64 2)]),
      ("s", .plainCall "substr" [.column "s", .literal (.int64 2), .literal (.int64 4)]),
      ("r", .plainCall "min_rank" [.plainCall "desc" [.column "x"]])]]

theorem finds_builtin_rankedLogarithms :
    (∃ arg ∈ List.replicate 2 (⟨none, oneOperand⟩ : Arg Operand),
      argument "log" (List.replicate 2 ⟨none, oneOperand⟩) 1 = pure arg.value) ∧
    (call (.builtin .mysql57 .default) none "log" (List.replicate 2 ⟨none, oneOperand⟩)
      none).Finds ∧
    FailsWith Error.ArgumentsGiven (rankedLogarithms.render .plain .mysql57 .default) ∧
    (rankedLogarithms.render .plain .mysql57 .default).isOk = true ∧
    ((call ⟨.mysql57, .default, ⟨[⟨"log", .exact 1, .special .logBase⟩]⟩⟩ none "log"
      [⟨none, oneOperand⟩] (some ⟨[], pure []⟩)).run.run []).1 =
        .error (.missingArgument "log" 1) ∧
    (emulate ⟨.mysql57, .default, ⟨[⟨"rank", .exact 0, .ranking "RANK"⟩]⟩⟩ "t" []
      ⟨"win01", "rank", [], false⟩).run .start = .error (.missingArgument "rank" 0) ∧
    0 ≤ substringLength 2 4 ∧ substringLength 2 4 = 3 := by
  obtain ⟨hargument, hcall, _, _, hrender, htable, hlength⟩ := finds_builtin .mysql57 .default
  have hone : OperandHolds (fun _ m => m.Finds) oneOperand :=
    ⟨fun _ _ => .pure True.intro, .pure True.intro,
      List.forall_mem_singleton.2 fun _ _ => .pure True.intro⟩
  refine ⟨?_, ?_, hrender rankedLogarithms .plain, by decide +kernel, ?_, ?_, (hlength 2 4).2.1,
    by decide⟩
  · obtain ⟨arg, hmem, _, hread⟩ := hargument "log" (List.replicate 2 ⟨none, oneOperand⟩)
      ⟨"log", .exact 2, .special .logBase⟩ (by decide +kernel) 1 (by decide)
    exact ⟨arg, hmem, hread⟩
  · refine hcall none "log" _ none (fun arg harg => ?_) frameHolds_none
    rw [List.eq_of_mem_replicate harg]
    exact hone
  · exact (htable ⟨[⟨"log", .exact 1, .special .logBase⟩]⟩).1 none "log" 1 _ [] rfl nofun
      (by decide)
  · exact (htable ⟨[⟨"rank", .exact 0, .ranking "RANK"⟩]⟩).2 "t" []
      ⟨"win01", "rank", [], false⟩ "RANK" .start rfl (by decide)

end Compiler

end SqlChain
