import SqlChain.Proofs.Chain.Statement
import SqlChain.Proofs.Meaning.Native

/-!
# Keys that an assignment rebinds

A chain keeps its ordering and its grouping as names until the statement is written. An assignment
overwrites the column of its name, whether it is merged into the level, put on top of it or computed
without a window, and a key that refers to the name is read with the new cells from then on
(`rebinds_mutate`). The keys that do not refer to it keep their values.
-/

namespace SqlChain

open BuildM

variable {ω : Type}

/-- The keys that rows are ordered by, and the columns that they are grouped by. -/
def State.keys (s : State) : List Expr := s.order ++ s.groups.map Expr.column

theorem State.IsClosed.keys {s : State} (h : s.IsClosed) {key : Expr} (hkey : key ∈ s.keys) :
    ∀ n ∈ key.columns, n ∈ s.columns := by
  intro n hn
  rcases List.mem_append.1 hkey with hkey | hkey
  · exact h.order key hkey n hn
  · obtain ⟨g, hg, rfl⟩ := List.mem_map.1 hkey
    rw [List.mem_singleton.1 hn]
    exact h.groups g hg

namespace Windows

/-- What a row is put in its place by: whether the key is descending, and its value. -/
def keyAt (W : Windows ω) (key : Expr) (row : Env) : Bool × Scalar :=
  (key.descending?.isSome, W.value (key.descending?.getD key) [row])

/-- What a key comes to in the rows of a state. -/
def keyValues (W : Windows ω) (s : State) (key : Expr) : List (Bool × Scalar) :=
  (W.read s.level).envs.map (W.keyAt key)

/-- What a key comes to in the rows of a state where the column `name` is overwritten. -/
def reboundValues (W : Windows ω) (s : State) (name : String) (value : Place Env → Scalar)
    (key : Expr) : List (Bool × Scalar) :=
  let columns := (W.read s.level).columns
  (places (W.read s.level).rows).map fun p =>
    W.keyAt key (Function.update (cell columns p.here) name (value (p.map (cell columns))))

/-- The value of an assigned expression in a row at its place. Calls that are taken out have columns
of their own, whose names come after those that were issued. -/
def assignedValue (W : Windows ω) (c : Compiler) (issued : Nat) (w : Window) (e : Expr)
    (p : Place Env) : Scalar :=
  if c.takesOut e then
    let (rest, calls) := c.extraction issued e
    W.value rest [resolved calls (W.callAt c w) p]
  else W.valueAt w p e

/-- The state `t` has the keys of `s`, and they are read with the column `name` overwritten. -/
structure Rebinds (W : Windows ω) (s : State) (name : String) (value : Place Env → Scalar)
    (t : State) : Prop where
  groups : t.groups = s.groups
  order : t.order = s.order
  values : ∀ key ∈ s.keys, W.keyValues t key = W.reboundValues s name value key

variable {W : Windows ω} {c : Compiler} {source : Source} {s s' : State} {l : Listing}
  {name : String} {value : Place Env → Scalar} {e key : Expr} {p later : Progress}

/-! ## Values of keys -/

theorem keyAt_congr {f g : Env} (h : ∀ n ∈ key.columns, f n = g n) :
    W.keyAt key f = W.keyAt key g := by
  have hvalue : W.value (key.descending?.getD key) [f] = W.value (key.descending?.getD key) [g] :=
    W.value_congr_row (by rwa [Expr.columns_descending])
  rw [keyAt, keyAt, hvalue]

/-- A key that does not refer to the column keeps its values. -/
theorem reboundValues_of_notMem (h : name ∉ key.columns) :
    W.reboundValues s name value key = W.keyValues s key := by
  rw [reboundValues, keyValues, RowSet.envs, List.map_map]
  conv_rhs => rw [← map_here_places (W.read s.level).rows, List.map_map]
  refine List.map_congr_left fun q _ => keyAt_congr fun n hn => ?_
  have hne : n ≠ name := fun heq => h (heq ▸ hn)
  exact Function.update_of_ne hne _ _

/-- A key that is the column itself has the values that are assigned. -/
theorem reboundValues_column :
    W.reboundValues s name value (.column name) = (places (W.read s.level).rows).map fun q =>
      (false, value (q.map (cell (W.read s.level).columns))) := by
  refine List.map_congr_left fun q _ => congrArg (Prod.mk false) ?_
  refine (W.toScalar_ofScalar _).trans ?_
  exact Function.update_self ..

theorem keyValues_assign (hbefore : W.read s.level = l.toRowSet)
    (hafter : W.read s'.level = (l.assign name value).toRowSet)
    (hkey : ∀ n ∈ key.columns, n ∈ l.columns) :
    W.keyValues s' key = W.reboundValues s name value key := by
  rw [keyValues, reboundValues, hbefore, hafter, RowSet.envs, Listing.assign, List.map_map,
    List.map_map]
  refine List.map_congr_left fun q _ => keyAt_congr fun n hn => ?_
  refine (cell_map_self (mem_withName (hkey n hn) name) _).trans ?_
  rw [Function.update_apply]

/-! ## Assignments -/

/-- What an assignment does to the rows, whichever way it takes. -/
theorem reads_mutate (hfunctions : c.functions = W.functions) (h : W.Reads c source s l)
    (hnodup : l.columns.Nodup)
    (hfresh : c.takesOut e = true →
      ∀ x ∈ (c.extraction p.temporaries e).2, x.temporary ∉ l.columns)
    (hrun : (c.mutate s name e).run p = .ok (s', later)) :
    W.Reads c source s' (l.assign name (W.assignedValue c p.temporaries l.window e)) := by
  cases htaken : c.takesOut e with
  | false =>
      have hvalue : W.assignedValue c p.temporaries l.window e = fun q => W.valueAt l.window q e := by
        funext q
        rw [assignedValue, htaken, if_neg Bool.false_ne_true]
      rw [hvalue]
      exact ensures_mutate_merged hfunctions h hnodup htaken p s' later hrun
  | true =>
      have hvalue : W.assignedValue c p.temporaries l.window e = fun q =>
          W.value (c.extraction p.temporaries e).1
            [resolved (c.extraction p.temporaries e).2 (W.callAt c l.window) q] := by
        funext q
        rw [assignedValue, htaken, if_pos rfl]
      obtain ⟨hwindow, hextracted⟩ :
          c.needsWindow e = true ∧ (c.hasWindows = false ∨ c.needsJoin e = true) := by
        simpa [Compiler.takesOut, ← Bool.not_eq_true, or_iff_not_imp_left] using htaken
      obtain ⟨he, q, hrun⟩ := Compiler.exists_run_mutate hwindow hextracted hrun
      rw [h.columns] at he
      obtain ⟨hcalls, hrest⟩ := c.columns_extraction p.temporaries e
      rw [hvalue]
      exact ensures_assign_calls hfunctions h hnodup (fun x hx n hn => he n (hcalls x hx n hn))
        (fun n hn => (hrest n hn).imp_left (he n))
        (Expr.temporaries_extract c.isWindowCall e p.temporaries).1 (hfresh htaken) name q s' later
        hrun

/-- The keys of a state are read with the column of an assignment overwritten, in the state that the
assignment gives and in the one that is shown in the end. -/
theorem rebinds_of_run (hfunctions : c.functions = W.functions) (hs : Reached c source s)
    (hnodup : s.columns.Nodup)
    (hfresh : c.takesOut e = true →
      ∀ x ∈ (c.extraction p.temporaries e).2, x.temporary ∉ s.columns)
    (hrun : (c.mutate s name e).run p = .ok (s', later)) :
    Reached c source s' ∧ s'.columns = withName s.columns name ∧
      W.Rebinds s name
        (W.assignedValue c p.temporaries { partition := s.groups, order := s.order } e) s' := by
  have hcolumns : (W.read s.level).columns = s.columns := W.columns_read s.level
  have hreads : W.Reads c source s { W.read s.level with groups := s.groups, order := s.order } :=
    ⟨hs, rfl, rfl, rfl⟩
  rw [← hcolumns] at hnodup hfresh
  have hmutate := reads_mutate hfunctions hreads hnodup hfresh hrun
  refine ⟨hmutate.reached, hcolumns ▸ hmutate.columns, hmutate.groups, hmutate.order,
    fun key hkey => keyValues_assign hreads.level hmutate.level fun n hn => ?_⟩
  exact hcolumns ▸ hs.isClosed.keys hkey n hn

/-- Showing a state does not change what its keys come to. -/
theorem Rebinds.exists_shows {t : State} {value : Place Env → Scalar}
    (h : W.Rebinds s name value t) (ht : Reached c source t) (hnodup : t.columns.Nodup)
    {r : Rendered} {after : Progress} (hrun : (c.finish t).run later = .ok (r, after)) :
    ∃ shown, W.Rebinds s name value shown ∧ r.Shows c shown later.dropped := by
  obtain ⟨shown, hshown, hshows, hlevel⟩ := ensuresAfter_finish_reaches ht
    (Q := fun level => W.read level = W.read t.level) rfl (read_wrap hnodup) later r after rfl hrun
  refine ⟨shown, ⟨hshown.groups.trans h.groups, hshown.order.trans h.order, fun key hkey => ?_⟩,
    hshows⟩
  rw [keyValues, hlevel]
  exact h.values key hkey

/-- The keys that refer to no assigned column keep their values through all assignments of an
operation. -/
theorem keyValues_mutates (hfunctions : c.functions = W.functions) (hs : Reached c source s)
    (hnodup : s.columns.Nodup) {assignments : List (String × Expr)}
    (hfresh : ∀ n, temporaryName n ∉ s.columns ++ assignments.map Prod.fst)
    (hkey : key ∈ s.keys) (hnames : ∀ a ∈ assignments, a.1 ∉ key.columns) :
    (c.step s (.mutate assignments)).Ensures fun s' =>
      s'.groups = s.groups ∧ s'.order = s.order ∧ W.keyValues s' key = W.keyValues s key := by
  let Q (t : State) : Prop := (Reached c source t ∧ t.columns.Nodup ∧
    ∀ n, temporaryName n ∉ t.columns) ∧
      t.groups = s.groups ∧ t.order = s.order ∧ W.keyValues t key = W.keyValues s key
  have hsource : ∀ n, temporaryName n ∉ s.columns :=
    fun n hn => hfresh n (List.mem_append_left _ hn)
  refine (Ensures.foldlM (Q := Q) ⟨⟨hs, hnodup, hsource⟩, rfl, rfl, rfl⟩ ?_).imp fun _ h => h.2
  rintro t ⟨⟨ht, htnodup, htfresh⟩, hgroups, horder, hvalues⟩ ⟨name, e⟩ ha p t' later hrun
  obtain ⟨ht', hcolumns, hrebinds⟩ := rebinds_of_run hfunctions ht htnodup (fun _ x hx hmem => by
    obtain ⟨k, hk⟩ := (Expr.temporaries_extract c.isWindowCall e p.temporaries).2 x hx
    exact htfresh k (hk ▸ hmem)) hrun
  have htkey : key ∈ t.keys := by rwa [State.keys, hgroups, horder]
  refine ⟨⟨ht', hcolumns ▸ nodup_withName htnodup name, fun n hn => ?_⟩,
    hrebinds.groups.trans hgroups, hrebinds.order.trans horder, ?_⟩
  · rw [hcolumns, mem_withName_iff] at hn
    refine hn.elim (htfresh n) fun hname => hfresh n (List.mem_append_right _ ?_)
    exact hname ▸ List.mem_map_of_mem ha
  · rw [hrebinds.values key htkey, reboundValues_of_notMem (hnames _ ha), hvalues]

/-- An assignment keeps the keys of the ordering and of the grouping as they are written. Those that
do not refer to the assigned column keep their values. The others are read with the column
overwritten, also where the statement is ordered in the end, and where rows are grouped by the column
itself they are grouped by what is assigned. -/
theorem rebinds_mutate (W : Windows ω) (dialect : Dialect) (config : Config) {source : Source}
    {s s' : State} {name : String} {e : Expr} {p later : Progress}
    (hs : Reached { dialect, config, functions := W.functions } source s)
    (hnodup : s.columns.Nodup)
    (hfresh : Compiler.takesOut { dialect, config, functions := W.functions } e = true →
      ∀ x ∈ (Compiler.extraction { dialect, config, functions := W.functions } p.temporaries e).2,
        x.temporary ∉ s.columns)
    (hrun : (Compiler.mutate { dialect, config, functions := W.functions } s name e).run p =
      .ok (s', later)) :
    let c : Compiler := { dialect, config, functions := W.functions }
    let value := W.assignedValue c p.temporaries { partition := s.groups, order := s.order } e
    W.Rebinds s name value s' ∧
      (∀ r after, (c.finish s').run later = .ok (r, after) →
        ∃ shown, W.Rebinds s name value shown ∧ r.Shows c shown later.dropped) ∧
      (∀ key ∈ s.keys, name ∉ key.columns → W.keyValues s' key = W.keyValues s key) ∧
      (.column name ∈ s.keys → W.keyValues s' (.column name) =
        (places (W.read s.level).rows).map fun q => (false, value (q.map (cell s.columns)))) := by
  intro c value
  obtain ⟨hs', hcolumns, hrebinds⟩ := rebinds_of_run rfl hs hnodup hfresh hrun
  have hnodup' : s'.columns.Nodup := hcolumns ▸ nodup_withName hnodup name
  refine ⟨hrebinds, fun r after => hrebinds.exists_shows hs' hnodup', fun key hkey hname => ?_,
    fun hkey => ?_⟩
  · rw [hrebinds.values key hkey, reboundValues_of_notMem hname]
  · rw [hrebinds.values _ hkey, reboundValues_column, W.columns_read]
    rfl

/-- Rows that are ordered by the total of their group since it overwrote their own number. They are
grouped as before. -/
theorem rebinds_mutate_total :
    let rows := [[.utf8 "a", .int64 1], [.null, .int64 4], [.utf8 "a", .int64 2]]
    let W := integers (rows.map (cell ["g", "x"]))
    let c : Compiler := .builtin .mysql57 .default
    let source : Source := { schema := none, name := "t", columns := ["g", "x"] }
    let s : State :=
      { State.ofSource source with groups := ["g"], order := [.plainCall "desc" [.column "x"]] }
    ∃ s' later,
      (c.mutate s "x" (.plainCall "sum" [.column "x"])).run .start = .ok (s', later) ∧
        W.keyValues s' (.plainCall "desc" [.column "x"]) =
          [(true, .int64 3), (true, .int64 4), (true, .int64 3)] ∧
        W.keyValues s' (.column "g") = W.keyValues s (.column "g") := by
  intro rows W c source s
  obtain ⟨⟨s', later⟩, hrun⟩ := exists_of_isOk
    (r := (c.mutate s "x" (.plainCall "sum" [.column "x"])).run .start) (by decide +kernel)
  have hgrouped : Reached c source { State.ofSource source with groups := ["g"] } :=
    Reached.start.move (.regroup (by decide))
  have hs : Reached c source s := hgrouped.move (.arrange (by decide))
  obtain ⟨hrebinds, _, hkept, _⟩ := rebinds_mutate W .mysql57 .default hs (by decide)
    (by decide +kernel) hrun
  refine ⟨s', later, hrun, ?_, hkept _ ?_ (by decide)⟩
  · exact (hrebinds.values _ (by simp [State.keys, s])).trans (by decide +kernel)
  · simp [State.keys, s]

/-- Two rows change places in the ordering when the column by which they were put in order is
overwritten, and they change their groups when the column by which they were grouped is. -/
theorem keys_overwritten :
    let rows := [[.int64 1, .int64 2], [.int64 2, .int64 1]]
    let W := integers (rows.map (cell ["g", "x"]))
    let c : Compiler := .builtin .ansi .default
    let source : Source := { schema := none, name := "t", columns := ["g", "x"] }
    let s : State := { State.ofSource source with groups := ["g"], order := [.column "x"] }
    let after name e := ((c.mutate s name e).run .start).toOption.map fun built =>
      W.keyValues built.1 (.column name)
    let rendered name e := (Query.render
      { source, ops := [.groupBy ["g"] false, .arrange [.column "x"], .mutate [(name, e)]] }
      .plain .ansi .default).toOption.map fun r => (r.sql, r.groups)
    (W.keyValues s (.column "x") = [(false, .int64 2), (false, .int64 1)] ∧
      after "x" (.column "g") = some [(false, .int64 1), (false, .int64 2)] ∧
      rendered "x" (.column "g") =
        some ("SELECT \"g\", \"g\" AS \"x\" FROM \"t\" ORDER BY \"x\"", ["g"])) ∧
    (W.keyValues s (.column "g") = [(false, .int64 1), (false, .int64 2)] ∧
      after "g" (.column "x") = some [(false, .int64 2), (false, .int64 1)] ∧
      rendered "g" (.column "x") =
        some ("SELECT \"x\" AS \"g\", \"x\" FROM \"t\" ORDER BY \"x\"", ["g"])) := by
  decide +kernel

end Windows

end SqlChain
