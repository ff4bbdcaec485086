import SqlChain.Proofs.Window.Log

/-!
# The builder with a log

Every step of the builder once more, where what is compiled and the states on the way are written
down. Without the log it is the same step (`erases_rendering` for the whole of a statement).
-/

namespace SqlChain

namespace Logged

open LoggedM

def wrapIf (condition : Bool) (s : State) : LoggedM State := do
  reached (← lift (s.wrapIf condition))

def filterRows (c : Compiler) (s : State) (predicate : Expr) : LoggedM State := do
  let body := s.level.body
  let s ← wrapIf (body.aggregated || body.windowed || s.level.isJoin ||
    !body.canReference predicate.columns) s
  let sql ← compiling .filter .scalar predicate (c.compile .scalar predicate)
  let filter : Fragment := { expr := predicate, window := none, sql }
  let body := s.level.body
  reached { s with level := s.level.withBody { body with filters := body.filters ++ [filter] } }

def assign (c : Compiler) (s : State) (windowed : Bool) (name : String) (e : Expr) :
    LoggedM State := do
  let used := e.columns ++ if windowed then s.groups ++ s.order.flatMap Expr.columns else []
  let body := s.level.body
  let s ← wrapIf (body.aggregated || s.level.isJoin || !body.canReference used) s
  let context : Context := if windowed then .windowed s.groups s.order else .scalar
  let sql ← compiling .assignment context e (c.compile context e)
  let body := s.level.body.setItem
    { name, value := .computed { expr := e, window := context.window, sql } }
  reached { s with level := s.level.withBody { body with windowed := body.windowed || windowed } }

def correlatedRank (c : Compiler) (source : String) (dense : Bool) (key : Expr)
    (groups : List String) : LoggedM CorrelatedRank := do
  let descending := key.descending?.isSome
  let key := key.descending?.getD key
  let own : Context := .qualified Compiler.rankTable
  let other : Context := .qualified Side.left.tableName
  let inner ← compiling .rank own key (c.compileOperand own key)
  let outer ← compiling .rank other key (c.compileOperand other key)
  let count := if dense then "COUNT(DISTINCT " ++ inner ++ ")" else "COUNT(*)"
  let same ← lift (c.matchGroups Compiler.rankTable Side.left.tableName groups)
  let before := inner ++ (if descending then " > " else " < ") ++ outer
  let table ← lift (c.dialect.quoteIdentifier Compiler.rankTable)
  let sql := "(SELECT " ++ count ++ " FROM " ++ Level.named source table ++ " WHERE " ++
    String.intercalate " AND " (same ++ [before]) ++ ") + 1"
  return { key, descending, dense, groups, sql }

def emulate (c : Compiler) (source : String) (groups : List String) (x : ExtractedCall) :
    LoggedM Compiler.Emulated := do
  let unsupported : LoggedM Compiler.Emulated :=
    throw (.unsupportedEmulation x.function c.dialect.name)
  match c.functions.form? x.function x.args.length with
  | none => unsupported
  | some form =>
    if form.isAggregate then
      let sql ← compiling .aggregate .scalar x.call (c.compile .scalar x.call)
      return .aggregate
        { name := x.temporary, value := .computed { expr := x.call, window := none, sql } }
    else if form = .ranking "RANK" ∨ form = .ranking "DENSE_RANK" then
      match x.args with
      | [] => throw (.missingArgument x.function 0)
      | key :: _ =>
        let rank ← correlatedRank c source (form = .ranking "DENSE_RANK") key.value groups
        return .rank { name := x.temporary, value := .rank rank }
    else unsupported

def emulateAll (c : Compiler) (s : State) (calls : List ExtractedCall) : LoggedM State := do
  let source ← lift (s.level.render c.dialect)
  let emulated ← calls.mapM (emulate c source s.groups)
  let aggregates := emulated.filterMap Compiler.Emulated.aggregate?
  let ranks := emulated.filterMap Compiler.Emulated.rank?
  let own := s.columns.map (Item.ofSide .left)
  let body := Body.identity s.columns
  if aggregates.isEmpty then
    let body := { body with items := own ++ ranks }
    reached { s with level := .subquery s.level Side.left.tableName body }
  else
    let right : Level := .subquery s.level (← lift BuildM.nextSubquery)
      { body with
        items := s.groups.map Item.column ++ aggregates
        groupBy := s.groups
        aggregated := true }
    let on ← lift (c.matching s.groups)
    let joined := aggregates.map fun item => Item.ofSide .right item.name
    reached
      { s with level := .join s.level right on { body with items := own ++ joined ++ ranks } }

def materialise (c : Compiler) (s : State) (calls : List ExtractedCall) : LoggedM State := do
  if !c.hasWindows then emulateAll c s calls
  else
    let (joined, native) := calls.partition fun x => c.needsJoin x.call
    let s ← if joined.isEmpty then pure s else emulateAll c s joined
    native.foldlM (fun s x => assign c s true x.temporary x.call) s

def selectNames (s : State) (names : List String) : LoggedM State := do
  reached (← lift (Compiler.selectNames s names))

def filter (c : Compiler) (s : State) (predicate : Expr) : LoggedM State := do
  lift (s.checkReferences predicate)
  if c.needsWindow predicate then
    let (rest, calls) ← lift (BuildM.extracting c.isWindowCall predicate)
    let filtered ← filterRows c (← materialise c s calls) rest
    selectNames filtered s.columns
  else filterRows c s predicate

def mutate (c : Compiler) (s : State) (name : String) (e : Expr) : LoggedM State := do
  lift (s.checkReferences e)
  if !c.needsWindow e then assign c s false name e
  else if c.hasWindows && !c.needsJoin e then assign c s true name e
  else
    let (rest, calls) ← lift (BuildM.extracting c.isWindowCall e)
    let assigned ← assign c (← materialise c s calls) false name rest
    let columns := s.columns
    selectNames assigned (if columns.contains name then columns else columns ++ [name])

def summaryItem (c : Compiler) (name : String) (e : Expr) : LoggedM Item := do
  let sql ← compiling .summary .scalar e (c.compile .scalar e)
  return { name, value := .computed { expr := e, window := none, sql } }

def summarise (c : Compiler) (s : State) (assignments : List (String × Expr)) :
    LoggedM State := do
  lift (Compiler.checkAssignments s assignments)
  let s ← wrapIf (!s.level.isPlain) s
  let computed ← assignments.mapM fun (name, e) => summaryItem c name e
  let body : Body :=
    { s.level.body with
      items := s.groups.map Item.column ++ computed
      groupBy := s.groups
      aggregated := true }
  reached { level := s.level.withBody body, groups := [], order := [] }

def step (c : Compiler) (s : State) : Op → LoggedM State
  | .select idents => do reached (← lift (s.select idents))
  | .rename pairs => do reached (← lift (Compiler.rename s pairs))
  | .filter predicates => predicates.foldlM (filter c) s
  | .mutate assignments => assignments.foldlM (fun s (name, e) => mutate c s name e) s
  | .summarise assignments => summarise c s assignments
  | .arrange keys => do reached (← lift (Compiler.arrange s keys))
  | .groupBy keys add => do reached (← lift (Compiler.groupBy s keys add))
  | .ungroup => reached { s with groups := [] }

def build (c : Compiler) (q : Query) : LoggedM State := do
  q.ops.foldlM (step c) (← reached (.ofSource q.source))

def arranged (c : Compiler) (mode : Mode) (s : State) : LoggedM State :=
  match mode with
  | .plain => return s
  | .groups => do reached (← lift s.groupOrdered)
  | .labels => do
    if s.groups.isEmpty then throw (.invalidArgument "labels" .notGrouped)
    let summary ← summarise c s []
    reached { summary with order := s.groups.map Expr.column, groups := s.groups }

def finish (c : Compiler) (s : State) : LoggedM Rendered := do
  let s ← wrapIf (s.order.any s.isOutOfReach) s
  let sql ← lift (s.level.render c.dialect)
  let keys ← s.order.mapM fun key => compiling .ordering .scalar key (c.compileKey .scalar key)
  let orderBy := if keys.isEmpty then "" else " ORDER BY " ++ String.intercalate ", " keys
  return {
    sql := sql ++ orderBy
    columns := s.columns
    groups := s.groups
    warnings := (← get).warnings }

def rendering (c : Compiler) (mode : Mode) (q : Query) : LoggedM Rendered := do
  let s ← build c q
  let s ← arranged c mode s
  finish c s

end Logged

/-- All that happens while a query is rendered. -/
def Query.events (q : Query) (c : Compiler) (mode : Mode) : List Event :=
  ((Logged.rendering c mode q).exec .start []).2

/-! ## Steps without their log -/

namespace Logged

open LoggedM

variable {c : Compiler}

theorem erases_wrapIf (condition : Bool) (s : State) :
    (wrapIf condition s).Erases (s.wrapIf condition) :=
  .andReached (.lift _)

theorem erases_filterRows (s : State) (e : Expr) : (filterRows c s e).Erases (c.filterRows s e) :=
  (erases_wrapIf _ s).bind fun _ => (Erases.compiling _).bind fun _ => .reached _

theorem erases_assign (s : State) (windowed : Bool) (name : String) (e : Expr) :
    (assign c s windowed name e).Erases (c.assign s windowed name e) :=
  (erases_wrapIf _ s).bind fun _ => (Erases.compiling _).bind fun _ => .reached _

theorem erases_correlatedRank (source : String) (dense : Bool) (key : Expr)
    (groups : List String) :
    (correlatedRank c source dense key groups).Erases (c.correlatedRank source dense key groups) :=
  (Erases.compiling _).bind fun _ => (Erases.compiling _).bind fun _ =>
    (Erases.lift _).bind fun _ => (Erases.lift _).bind fun _ => .pure _

theorem erases_emulate (source : String) (groups : List String) (x : ExtractedCall) :
    (emulate c source groups x).Erases (c.emulate source groups x) := by
  unfold emulate Compiler.emulate
  cases c.functions.form? x.function x.args.length with
  | none => exact .throw _
  | some form =>
      dsimp only
      split
      · exact (Erases.compiling _).bind fun _ => .pure _
      split
      · cases x.args with
        | nil => exact .throw _
        | cons key _ => exact (erases_correlatedRank source _ _ groups).bind fun _ => .pure _
      · exact .throw _

theorem erases_emulateAll (s : State) (calls : List ExtractedCall) :
    (emulateAll c s calls).Erases (c.emulateAll s calls) := by
  refine (Erases.lift _).bind fun source => ?_
  refine (Erases.mapM (erases_emulate source s.groups) calls).bind fun emulated => ?_
  dsimp only
  split
  · exact .reached _
  · exact (Erases.lift _).bind fun _ => (Erases.lift _).bind fun _ => .reached _

theorem erases_assigns (s : State) (calls : List ExtractedCall) :
    Erases (calls.foldlM (fun s x => assign c s true x.temporary x.call) s)
      (calls.foldlM (fun s x => c.assign s true x.temporary x.call) s) := by
  refine Erases.foldlM ?_ s calls
  exact fun s x => erases_assign s true x.temporary x.call

theorem erases_materialise (s : State) (calls : List ExtractedCall) :
    (materialise c s calls).Erases (c.materialise s calls) := by
  rw [materialise, Compiler.materialise]
  split
  · exact erases_emulateAll s calls
  dsimp only
  split
  · exact erases_assigns s _
  · exact (erases_emulateAll s _).bind fun s => erases_assigns s _

theorem erases_selectNames (s : State) (names : List String) :
    (selectNames s names).Erases (Compiler.selectNames s names) :=
  .andReached (.lift _)

theorem erases_filter (s : State) (e : Expr) : (filter c s e).Erases (c.filter s e) := by
  refine (Erases.lift _).bind fun _ => ?_
  split
  · refine (Erases.lift _).bind fun taken => (erases_materialise s taken.2).bind fun placed => ?_
    exact (erases_filterRows placed taken.1).bind fun rows => erases_selectNames rows s.columns
  · exact erases_filterRows s e

theorem erases_mutate (s : State) (name : String) (e : Expr) :
    (mutate c s name e).Erases (c.mutate s name e) := by
  refine (Erases.lift _).bind fun _ => ?_
  split
  · exact erases_assign s false name e
  split
  · exact erases_assign s true name e
  refine (Erases.lift _).bind fun taken => (erases_materialise s taken.2).bind fun placed => ?_
  exact (erases_assign placed false name taken.1).bind fun rows => erases_selectNames rows _

theorem erases_summarise (s : State) (assignments : List (String × Expr)) :
    (summarise c s assignments).Erases (c.summarise s assignments) := by
  refine (Erases.lift _).bind fun _ => (erases_wrapIf _ s).bind fun s => ?_
  refine (Erases.mapM (fun a => ?_) assignments).bind fun _ => .reached _
  exact (Erases.compiling _).bind fun _ => .pure _

theorem erases_step (s : State) (op : Op) : (step c s op).Erases (c.step s op) := by
  cases op with
  | select idents => exact .andReached (.lift _)
  | rename pairs => exact .andReached (.lift _)
  | filter predicates => exact Erases.foldlM erases_filter s predicates
  | mutate assignments =>
      refine Erases.foldlM ?_ s assignments
      exact fun s a => erases_mutate s a.1 a.2
  | summarise assignments => exact erases_summarise s assignments
  | arrange keys => exact .andReached (.lift _)
  | groupBy keys add => exact .andReached (.lift _)
  | ungroup => exact .reached _

theorem erases_build (q : Query) : (build c q).Erases (c.build q) :=
  (Erases.reached _).bind fun s => .foldlM erases_step s q.ops

theorem erases_arranged (mode : Mode) (s : State) :
    (arranged c mode s).Erases (Query.arranged c mode s) := by
  cases mode with
  | plain => exact .pure s
  | groups => exact .andReached (.lift _)
  | labels =>
      rw [arranged, Query.arranged, Compiler.labels]
      split
      · exact (Erases.throw _).bind fun _ => (erases_summarise s []).bind fun _ => .reached _
      · exact (erases_summarise s []).bind fun _ => .reached _

end Logged

/-- Expressions may be compiled one after the other. -/
theorem BuildM.compiling_mapM {α β : Type} (f : α → CompileM β) (as : List α) :
    compiling (as.mapM f) = as.mapM fun a => compiling (f a) := by
  have hbind : ∀ {α β : Type} (m : CompileM α) (f : α → CompileM β),
      compiling (m >>= f) = compiling m >>= fun a => compiling (f a) := by
    intro α β m f
    funext p
    change (compiling (m >>= f)).run p = (compiling m >>= fun a => compiling (f a)).run p
    rw [StateT.run_bind, run_compiling, run_compiling, CompileM.run_bind]
    rcases m.run.run p.compiled with ⟨answer, later⟩
    cases answer with
    | error e => rfl
    | ok a => rfl
  induction as with
  | nil => rfl
  | cons a as ih =>
      rw [List.mapM_cons, List.mapM_cons, hbind]
      refine congrArg _ (funext fun b => ?_)
      rw [hbind, ih]
      rfl

namespace Logged

open LoggedM

variable {c : Compiler}

theorem erases_finish (s : State) : (finish c s).Erases (c.finish s) := by
  refine (erases_wrapIf _ s).bind fun s => (Erases.lift _).bind fun sql => ?_
  rw [Compiler.compileKeys, BuildM.compiling_mapM]
  refine (Erases.mapM (fun key => .compiling _) s.order).bind fun keys => ?_
  exact Erases.bind (b := get) (fun _ _ => rfl) fun _ => .pure _

/-- The builder with a log builds what the builder without one does. -/
theorem erases_rendering (mode : Mode) (q : Query) :
    (rendering c mode q).Erases (Query.rendering c mode q) :=
  (erases_build q).bind fun s => (erases_arranged mode s).bind erases_finish

end Logged

end SqlChain
