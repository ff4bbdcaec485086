import SqlChain.Compiler.Term
import SqlChain.Proofs.Branches

/-!
# Spellings of a conditional

A conditional can be written as such, or as a call in which each of its parts stands without a name
or under one of its own, and those without a name are in the order of the parts. All of them compile
to the same, and every other call with as many arguments is refused.
-/

namespace SqlChain

variable {α : Type} {function : String}

/-! ## Arguments and their names -/

/-- An argument whose value is the argument itself, so that it can be traced to its place. -/
def Arg.traced (arg : Arg α) : Arg (Arg α) := ⟨arg.name, arg⟩

/-- The part that the name of an argument is for. -/
def Arg.branch? (arg : Arg α) : Option Branch := arg.name.bind Branch.ofName?

theorem map_value_traced (args : List (Arg α)) : (args.map Arg.traced).map Arg.value = args := by
  rw [List.map_map]
  exact List.map_id args

namespace Branches

theorem unnamed_eq_map (args : List (Arg α)) :
    unnamed args = (args.filter (·.name.isNone)).map Arg.value := by
  induction args with
  | nil => rfl
  | cons arg rest ih =>
      obtain ⟨name, x⟩ := arg
      cases name with
      | none => exact congrArg (x :: ·) ih
      | some name => exact ih

theorem labelled_eq_map (args : List (Arg α)) :
    labelled args = (args.filter (·.name.isSome)).map Arg.value := by
  induction args with
  | nil => rfl
  | cons arg rest ih =>
      obtain ⟨name, x⟩ := arg
      cases name with
      | none => exact ih
      | some name => exact congrArg (x :: ·) ih

end Branches

namespace Choice

/-! ## Spellings -/

/-- The arguments are the parts, each without a name or under one of its own. -/
structure Spells (args : List (Arg α)) (given : Choice (Arg α)) : Prop where
  names : ∀ i, ∀ arg ∈ given.get? i, ∀ name ∈ arg.name, Branch.ofName? name = some i
  perm : args.Perm given.toList
  /-- Those without a name are in the order of the parts. -/
  order : args.filter (·.name.isNone) = given.toList.filter (·.name.isNone)

/-- The conditional of the values of these arguments. -/
def IsSpelled (args : List (Arg α)) (choice : Choice α) : Prop :=
  ∃ given, Spells args given ∧ given.map Arg.value = choice

variable {args : List (Arg α)} {given : Choice (Arg α)} {choice : Choice α}

theorem IsSpelled.length (h : IsSpelled args choice) : args.length = 2 ∨ args.length = 3 := by
  obtain ⟨⟨condition, value, otherwise⟩, hgiven, -⟩ := h
  rw [hgiven.perm.length_eq]
  cases otherwise with
  | none => exact .inl rfl
  | some last => exact .inr rfl

/-- An argument under a name of this part takes its place, and one without a name takes none. -/
theorem addNamed_cons_of_names {b : Branches α} {arg : Arg α} {i : Branch}
    (hname : ∀ name ∈ arg.name, Branch.ofName? name = some i) (hfree : b.get i = none)
    (rest : List (Arg α)) :
    b.addNamed function (arg :: rest) =
      (if arg.name.isSome then b.set arg.value i else b).addNamed function rest := by
  obtain ⟨name, x⟩ := arg
  cases name with
  | none => rfl
  | some name =>
      rw [Branches.addNamed, hname name rfl]
      dsimp only
      rw [hfree]
      rfl

theorem ofArgs_toList (function : String)
    (hnames : ∀ i, ∀ arg ∈ given.get? i, ∀ name ∈ arg.name, Branch.ofName? name = some i) :
    ofArgs function given.toList = .ok (given.map Arg.value) := by
  obtain ⟨condition, value, otherwise⟩ := given
  have hcondition := hnames .condition _ rfl
  have hvalue := hnames .value _ rfl
  obtain ⟨condition, x⟩ := condition
  obtain ⟨value, y⟩ := value
  cases otherwise with
  | none =>
      change Branches.empty.addNamed function [_, _] >>= _ = _
      rw [addNamed_cons_of_names hcondition rfl,
        addNamed_cons_of_names hvalue (by cases condition <;> rfl)]
      cases condition <;> cases value <;> rfl
  | some last =>
      have hlast := hnames .otherwise _ rfl
      obtain ⟨last, z⟩ := last
      change Branches.empty.addNamed function [_, _, _] >>= _ = _
      rw [addNamed_cons_of_names hcondition rfl,
        addNamed_cons_of_names hvalue (by cases condition <;> rfl),
        addNamed_cons_of_names hlast (by cases condition <;> cases value <;> rfl)]
      cases condition <;> cases value <;> cases last <;> rfl

theorem Spells.ofArgs (function : String) (h : Spells args given) :
    ofArgs function args = .ok (given.map Arg.value) := by
  obtain ⟨named, hnamed, hget⟩ := exists_of_ofArgs (ofArgs_toList function h.names)
  have hunnamed : Branches.unnamed args = Branches.unnamed given.toList := by
    rw [Branches.unnamed_eq_map, Branches.unnamed_eq_map, h.order]
  rw [Choice.ofArgs, Branches.addNamed_perm h.perm.symm hnamed, hunnamed]
  exact toChoice_eq_ok_iff.2 hget

theorem spells_of_ofArgs (hlength : args.length ≤ 3)
    (h : Choice.ofArgs function (args.map Arg.traced) = .ok given) : Spells args given := by
  have hvalues := map_value_traced args
  have hunnamed : Branches.unnamed (args.map Arg.traced) = args.filter (·.name.isNone) := by
    rw [Branches.unnamed_eq_map, List.filter_map, List.map_map]
    exact List.map_id _
  have hlabelled : Branches.labelled (args.map Arg.traced) = args.filter (·.name.isSome) := by
    rw [Branches.labelled_eq_map, List.filter_map, List.map_map]
    exact List.map_id _
  rw [← List.length_map Arg.traced] at hlength
  refine ⟨?_, ?_, ?_⟩
  · obtain ⟨named, hnamed, hget⟩ := exists_of_ofArgs h
    have hfilled : (named.fill Branch.all (Branches.unnamed (args.map Arg.traced))).Forall
        fun i arg => ∀ name ∈ arg.name, Branch.ofName? name = some i := by
      refine (Branches.forall_empty.addNamed ?_ hnamed).fill _ fun arg harg i name hname => ?_
      · refine List.forall_mem_map.2 fun arg _ name hname i hi name' hname' => ?_
        cases Option.mem_unique hname hname'
        exact hi
      · rw [hunnamed, List.mem_filter] at harg
        rw [Option.isNone_iff_eq_none.1 harg.2] at hname
        cases hname
    rwa [Branches.Forall, hget] at hfilled
  · exact hvalues ▸ perm_of_ofArgs hlength h
  · obtain ⟨named, hnamed, hlist⟩ := interleaves_of_ofArgs hlength h
    rw [hlabelled] at hnamed
    rw [hunnamed] at hlist
    refine (hlist.filter_eq (fun arg harg => List.of_mem_filter harg) fun arg harg => ?_).symm
    have hnamed := List.of_mem_filter (hnamed.mem_iff.1 harg)
    simpa using hnamed

/-- Of no more arguments than there are parts, the spellings of a conditional are those that stand
for it. -/
theorem ofArgs_eq_ok_iff (function : String) (hlength : args.length ≤ 3) :
    ofArgs function args = .ok choice ↔ IsSpelled args choice := by
  constructor
  · intro h
    have htraced : RelatedArgs (fun x arg => x = arg.value) args (args.map Arg.traced) :=
      List.forall₂_map_right_iff.2 (List.forall₂_same.2 fun _ _ => ⟨rfl, rfl⟩)
    obtain ⟨given, hgiven, hchoice⟩ := (related_ofArgs htraced).exists_of_ok h
    exact ⟨given, spells_of_ofArgs hlength hgiven, hchoice.eq_map.symm⟩
  · rintro ⟨given, hgiven, rfl⟩
    exact hgiven.ofArgs function

/-! ## Refusals -/

/-- Why these arguments are not those of a conditional. -/
def HasFault (args : List (Arg α)) : ArgumentFault → Prop
  | .unknownName name => some name ∈ args.map Arg.name ∧ Branch.ofName? name = none
  | .repeatedName name => ∃ i first second, [first, second].Sublist args ∧
      first.branch? = some i ∧ second.name = some name ∧ second.branch? = some i
  | .missingBranch => ∃ i ∈ [Branch.condition, Branch.value], ∀ arg ∈ args, arg.branch? ≠ some i
  | _ => False

/-- Names are refused if they are unknown or if their place was taken by an argument to the left. -/
theorem hasFault_of_addNamed {b : Branches α} {before : List (Arg α)} {e : Error}
    (hb : ∀ i, (b.get i).isSome → ∃ first ∈ before, first.branch? = some i)
    (h : b.addNamed function args = .error e) :
    ∃ fault, e = .invalidArgument function fault ∧ HasFault (before ++ args) fault := by
  induction args generalizing b before with
  | nil => cases h
  | cons arg rest ih =>
      obtain ⟨name, x⟩ := arg
      rw [List.append_cons]
      cases name with
      | none =>
          refine ih (fun i hi => ?_) h
          obtain ⟨first, hfirst, hbranch⟩ := hb i hi
          exact ⟨first, List.mem_append_left _ hfirst, hbranch⟩
      | some name =>
          rw [Branches.addNamed] at h
          cases hname : Branch.ofName? name with
          | none =>
              rw [hname] at h
              cases h
              exact ⟨_, rfl, by simp, hname⟩
          | some i =>
              rw [hname] at h
              dsimp only at h
              split at h
              · next htaken =>
                  cases h
                  obtain ⟨first, hfirst, hbranch⟩ := hb i htaken
                  have hsub : [first, ⟨some name, x⟩].Sublist (before ++ [⟨some name, x⟩]) :=
                    (List.singleton_sublist.2 hfirst).append_right _
                  exact ⟨_, rfl, i, first, ⟨some name, x⟩, hsub.trans (List.sublist_append_left _ _),
                    hbranch, rfl, hname⟩
              · refine ih (fun j hj => ?_) h
                by_cases hij : i = j
                · exact ⟨⟨some name, x⟩, by simp, hij ▸ hname⟩
                · rw [Branches.get_set_ne b x hij] at hj
                  obtain ⟨first, hfirst, hbranch⟩ := hb j hj
                  exact ⟨first, List.mem_append_left _ hfirst, hbranch⟩

theorem isSome_get_addNamed {b named : Branches α} (h : b.addNamed function args = .ok named)
    {i : Branch} (hi : (b.get i).isSome ∨ ∃ arg ∈ args, arg.branch? = some i) :
    (named.get i).isSome := by
  induction args generalizing b with
  | nil =>
      cases h
      simpa using hi
  | cons arg rest ih =>
      obtain ⟨name, x⟩ := arg
      cases name with
      | none => exact ih h (by simpa [Arg.branch?] using hi)
      | some name =>
          obtain ⟨j, hname, -, h⟩ := Branches.addNamed_named_eq_ok_iff.1 h
          refine ih h ?_
          by_cases hji : j = i
          · exact .inl (by rw [hji, Branches.get_set_self]; rfl)
          · rw [Branches.get_set_ne b x hji]
            simpa [Arg.branch?, hname, hji] using hi

theorem exists_get_eq_none_of_toChoice {b : Branches α} {e : Error}
    (h : b.toChoice function = .error e) :
    e = .invalidArgument function .missingBranch ∧
      ∃ i ∈ [Branch.condition, Branch.value], b.get i = none := by
  obtain ⟨condition, value, otherwise⟩ := b
  cases condition with
  | none =>
      cases h
      exact ⟨rfl, .condition, by simp, rfl⟩
  | some condition =>
      cases value with
      | none =>
          cases h
          exact ⟨rfl, .value, by simp, rfl⟩
      | some value => cases h

/-- Arguments of a conditional are refused for no other reason than what they are. -/
theorem hasFault_of_ofArgs {e : Error} (h : ofArgs function args = .error e) :
    ∃ fault, e = .invalidArgument function fault ∧ HasFault args fault := by
  rw [ofArgs] at h
  cases hnamed : Branches.empty.addNamed function args with
  | error e' =>
      rw [hnamed] at h
      cases h
      have hempty : ∀ i, ((Branches.empty : Branches α).get i).isSome →
          ∃ first ∈ ([] : List (Arg α)), first.branch? = some i := by
        intro i hi
        cases i <;> cases hi
      exact hasFault_of_addNamed hempty hnamed
  | ok named =>
      rw [hnamed] at h
      obtain ⟨rfl, i, hi, hnone⟩ := exists_get_eq_none_of_toChoice h
      refine ⟨_, rfl, i, hi, fun arg harg hbranch => ?_⟩
      have hsome := isSome_get_addNamed hnamed (.inr ⟨arg, harg, hbranch⟩)
      obtain ⟨x, hx⟩ := Option.isSome_iff_exists.1 hsome
      rw [Branches.get_fill hx] at hnone
      cases hnone

end Choice

/-! ## Compilation -/

def Choice.toExpr (choice : Choice Expr) : Expr :=
  .conditional choice.condition choice.value choice.otherwise

namespace Compiler

open Choice

theorem lookup_conditional (dialect : Dialect) (config : Config)
    (hfunction : function ∈ ["if", "ifelse", "if_else"]) {arity : Nat}
    (harity : arity = 2 ∨ arity = 3) :
    ∃ entry, (builtin dialect config).functions.lookup function arity = .found entry ∧
      entry.form = .special .conditional := by
  have hentry : ∀ name ∈ ["if", "ifelse", "if_else"], ∀ arity ∈ [2, 3],
      FunctionTable.builtin.lookup name arity =
        .found ⟨name, .range 2 3, .special .conditional⟩ := by
    decide +kernel
  exact ⟨_, hentry function hfunction arity (by simpa using harity), rfl⟩

/-- A call of a conditional is the conditional that its arguments stand for. -/
theorem term_call_conditional (dialect : Dialect) (config : Config) (qualifier : Option String)
    (hfunction : function ∈ ["if", "ifelse", "if_else"]) {args : List (Arg Expr)}
    (harity : args.length = 2 ∨ args.length = 3) (window : Bool) (frame : Option Frame) :
    (builtin dialect config).term qualifier (.call function args window) frame =
      attempt (ofArgs function args) >>= fun choice =>
        (builtin dialect config).term qualifier choice.toExpr frame := by
  have hoperands : RelatedArgs (fun e o => o.value = (builtin dialect config).term qualifier e)
      args ((builtin dialect config).operands qualifier args) := by
    rw [operands_eq_map]
    exact List.forall₂_map_right_iff.2 (List.forall₂_same.2 fun _ _ => ⟨rfl, rfl⟩)
  have hchoices : SameOutcome _ (ofArgs function args)
      (ofArgs function ((builtin dialect config).operands qualifier args)) :=
    related_ofArgs hoperands
  obtain ⟨entry, hlookup, hform⟩ := lookup_conditional dialect config hfunction harity
  rw [term, call, ← hoperands.length_eq, hlookup]
  dsimp only
  rw [hform, writeAs, special]
  generalize ofArgs function args = choice at hchoices ⊢
  generalize ofArgs function ((builtin dialect config).operands qualifier args) = other
    at hchoices ⊢
  cases hchoices with
  | error e => rfl
  | @ok choice other h =>
      obtain ⟨condition, value, otherwise⟩ := choice
      obtain ⟨condition', value', otherwise'⟩ := other
      obtain ⟨hcondition, hvalue, hotherwise⟩ := h
      dsimp only at hcondition hvalue hotherwise
      change conditional condition'.value value'.value (otherwise'.map (·.value)) frame = _
      rw [hcondition, hvalue]
      cases hotherwise with
      | none => rfl
      | some h =>
          rw [Option.map_some, h]
          rfl

/-- The texts of the parts, each compiled once and by itself, from the condition on. -/
def caseOf (c : Compiler) (context : Context) (choice : Choice Expr) : CompileM String := do
  let condition ← c.compile context choice.condition
  let value ← c.compile context choice.value
  let start := "CASE WHEN " ++ Term.parenthesised condition ++ " THEN " ++ Term.parenthesised value
  match choice.otherwise with
  | none => return start ++ " END"
  | some otherwise =>
    return start ++ " ELSE " ++ Term.parenthesised (← c.compile context otherwise) ++ " END"

theorem compile_toExpr (c : Compiler) (context : Context) (choice : Choice Expr) :
    c.compile context choice.toExpr = c.caseOf context choice := by
  obtain ⟨condition, value, otherwise⟩ := choice
  cases otherwise <;>
    simp only [toExpr, compile, term, conditional, caseOf, bind_assoc, pure_bind, Term.text]

/-- All spellings of a conditional compile to the same, and what is not a spelling of one is
refused. -/
theorem compile_call_conditional (dialect : Dialect) (config : Config) (context : Context)
    (hfunction : function ∈ ["if", "ifelse", "if_else"]) (args : List (Arg Expr)) (window : Bool) :
    let c := builtin dialect config
    (∀ choice : Choice Expr, IsSpelled args choice →
      c.compile context (.call function args window) = c.compile context choice.toExpr ∧
      c.compileOperand context (.call function args window) =
        c.compileOperand context choice.toExpr ∧
      c.compile context choice.toExpr = c.caseOf context choice) ∧
    (args.length = 2 ∨ args.length = 3 → (∀ choice : Choice Expr, ¬ IsSpelled args choice) →
      ∃ fault, HasFault args fault ∧
        c.compile context (.call function args window) =
          throw (.invalidArgument function fault) ∧
        c.compileOperand context (.call function args window) =
          throw (.invalidArgument function fault)) := by
  intro c
  have hterm (harity : args.length = 2 ∨ args.length = 3) :=
    term_call_conditional dialect config context.qualifier hfunction harity window
      (c.frame context)
  refine ⟨fun choice hspelled => ?_, fun harity hnone => ?_⟩
  · have harity := hspelled.length
    have hchoice := (ofArgs_eq_ok_iff function (by omega)).2 hspelled
    have hcall : c.term context.qualifier (.call function args window) (c.frame context) =
        c.term context.qualifier choice.toExpr (c.frame context) := by
      rw [hterm harity, hchoice]
      rfl
    exact ⟨by rw [compile, hcall]; rfl, by rw [compileOperand, hcall]; rfl,
      compile_toExpr c context choice⟩
  · cases hchoice : ofArgs function args with
    | ok choice => exact absurd ((ofArgs_eq_ok_iff function (by omega)).1 hchoice) (hnone choice)
    | error e =>
        obtain ⟨fault, rfl, hfault⟩ := hasFault_of_ofArgs hchoice
        have hcall : c.term context.qualifier (.call function args window) (c.frame context) =
            throw (.invalidArgument function fault) := by
          rw [hterm harity, hchoice]
          rfl
        exact ⟨fault, hfault, by rw [compile, hcall]; rfl, by rw [compileOperand, hcall]; rfl⟩

theorem compile_call_conditional_mixed :
    (builtin .ansi .default).compile .scalar
        (.call "ifelse"
          [⟨some "no", .column "z"⟩, ⟨none, .column "x"⟩, ⟨none, .column "y"⟩] false) =
      (builtin .ansi .default).compile .scalar
        (.conditional (.column "x") (.column "y") (some (.column "z"))) ∧
    ∃ fault, (builtin .ansi .default).compile .scalar
        (.call "if"
          [⟨some "test", .column "a"⟩, ⟨some "cond", .column "b"⟩, ⟨none, .column "y"⟩] false) =
      throw (.invalidArgument "if" fault) := by
  obtain ⟨hspelled, -⟩ := compile_call_conditional .ansi .default .scalar
    (show "ifelse" ∈ ["if", "ifelse", "if_else"] by decide)
    [⟨some "no", .column "z"⟩, ⟨none, .column "x"⟩, ⟨none, .column "y"⟩] false
  obtain ⟨-, hrefused⟩ := compile_call_conditional .ansi .default .scalar
    (show "if" ∈ ["if", "ifelse", "if_else"] by decide)
    [⟨some "test", .column "a"⟩, ⟨some "cond", .column "b"⟩, ⟨none, .column "y"⟩] false
  constructor
  · exact (hspelled ⟨_, _, _⟩ ((ofArgs_eq_ok_iff "ifelse" (by decide)).1 rfl)).1
  · obtain ⟨fault, -, hfault, -⟩ := hrefused (.inr rfl) fun choice hspelled => by
      cases (ofArgs_eq_ok_iff "if" (by decide)).2 hspelled
    exact ⟨fault, hfault⟩

end Compiler

end SqlChain
