import SqlChain.Proofs.Meaning.Merged

/-!
# Temporary columns

A call that is taken out of an expression is computed in a column of its own, over a window or
without one. Where that column is new, what is left of the expression finds the value of the call
in it, and no other column changes.
-/

namespace SqlChain

open BuildM

variable {ω : Type}

/-- The value of a call without a window: a rank is counted, and anything else is evaluated over
the group of the row. -/
def Reading.joinedValue (R : Reading ω) (groups : List String) (x : ExtractedCall)
    (rows : List Env) (row : Env) : Scalar :=
  match R.functions.form? x.function x.args.length, x.args with
  | some (.ranking sql), key :: _ =>
    R.rankValue
      { key := key.value.descending?.getD key.value
        descending := key.value.descending?.isSome
        dense := sql = "DENSE_RANK"
        groups
        sql := "" } rows row
  | _, _ => R.value x.call (peers groups rows row)

namespace Windows

variable {W : Windows ω} {c : Compiler} {source : Source} {s : State} {l : Listing}

/-- Whether a call is written over a window. -/
def isNative (c : Compiler) (x : ExtractedCall) : Bool := c.hasWindows && !c.needsJoin x.call

/-- The value of a call in the column that is made for it. -/
def callAt (W : Windows ω) (c : Compiler) (w : Window) (x : ExtractedCall) (p : Place Env) :
    Scalar :=
  if isNative c x then W.valueAt w p x.call
  else W.reading.joinedValue w.partition x p.all p.here

/-- A row together with the values of calls, each in the column that was made for it. -/
def resolved (calls : List ExtractedCall) (value : ExtractedCall → Place Env → Scalar)
    (p : Place Env) : Env := fun n =>
  ((calls.find? (·.temporary == n)).map fun x => value x p).getD (p.here n)

/-! ## Listings with temporary columns -/

/-- A listing that has the rows of another, in which every cell is as it was and every call has its
value in the column that was made for it. -/
structure Extends (l l' : Listing) (calls : List ExtractedCall)
    (value : ExtractedCall → Place Env → Scalar) : Prop where
  nodup : l'.columns.Nodup
  columns : ∀ n ∈ l.columns ++ calls.map (·.temporary), n ∈ l'.columns
  groups : l'.groups = l.groups
  order : l'.order = l.order
  rows : ∃ row : Place Row → Row, l'.rows = (places l.rows).map row ∧ ∀ p ∈ places l.rows,
    (∀ n ∈ l.columns, cell l'.columns (row p) n = cell l.columns p.here n) ∧
    ∀ x ∈ calls, cell l'.columns (row p) x.temporary = value x (p.map (cell l.columns))

namespace Extends

variable {l' : Listing} {calls : List ExtractedCall} {value : ExtractedCall → Place Env → Scalar}

theorem refl (hnodup : l.columns.Nodup) : Extends l l [] value where
  nodup := hnodup
  columns := by simp
  groups := rfl
  order := rfl
  rows := ⟨(·.here), (map_here_places l.rows).symm, fun p _ => ⟨fun _ _ => rfl, by simp⟩⟩

theorem mono (h : Extends l l' calls value) {fewer : List ExtractedCall} (hfewer : fewer ⊆ calls) :
    Extends l l' fewer value := by
  obtain ⟨row, hrows, hcells⟩ := h.rows
  refine ⟨h.nodup, fun n hn => h.columns n ?_, h.groups, h.order, row, hrows, fun p hp => ?_⟩
  · rcases List.mem_append.1 hn with hn | hn
    · exact List.mem_append_left _ hn
    · exact List.mem_append_right _ (List.map_subset _ hfewer hn)
  · exact ⟨(hcells p hp).1, fun x hx => (hcells p hp).2 x (hfewer hx)⟩

theorem window (h : Extends l l' calls value) : l'.window = l.window := by
  rw [Listing.window, h.groups, h.order]
  rfl

/-- One more call, whose value depends on the columns that there were at first. -/
theorem assign (h : Extends l l' calls value) {x : ExtractedCall}
    (hfresh : x.temporary ∉ l.columns) (hcalls : x.temporary ∉ calls.map (·.temporary))
    {v : Place Env → Scalar}
    (hv : ∀ (f g : Place Row → Env) (p : Place (Place Row)),
      (∀ y ∈ p.all, ∀ n ∈ l.columns, f y n = g y n) → v (p.map f) = value x (p.map g)) :
    Extends l (l'.assign x.temporary v) (calls ++ [x]) value where
  nodup := Listing.nodup_assign h.nodup _ _
  columns := by
    intro n hn
    rw [List.map_append, ← List.append_assoc] at hn
    rcases List.mem_append.1 hn with hn | hn
    · exact mem_withName (h.columns n hn) _
    · cases List.mem_singleton.1 hn
      exact self_mem_withName _ _
  groups := h.groups
  order := h.order
  rows := by
    obtain ⟨row, hrows, hcells⟩ := h.rows
    let columns := (l'.assign x.temporary v).columns
    let extended (p : Place Row) : Row := columns.map fun n =>
      if n = x.temporary then value x (p.map (cell l.columns)) else cell l'.columns (row p) n
    have hvalue : ∀ p ∈ places (places l.rows),
        v ((p.map row).map (cell l'.columns)) = value x (p.here.map (cell l.columns)) := by
      intro p hp
      rw [← map_here_of_mem_places hp, Place.map_map, Place.map_map]
      refine hv _ _ p fun q hq n hn => ?_
      rw [all_of_mem_places hp] at hq
      exact (hcells q hq).1 n hn
    have hcell : ∀ n ∈ columns, ∀ p, cell columns (extended p) n =
        if n = x.temporary then value x (p.map (cell l.columns)) else cell l'.columns (row p) n :=
      fun n hn p => cell_map_self hn _
    have hold : ∀ n ∈ l'.columns, n ≠ x.temporary → ∀ p,
        cell columns (extended p) n = cell l'.columns (row p) n :=
      fun n hn hne p => (hcell n (mem_withName hn _) p).trans (if_neg hne)
    refine ⟨extended, ?_, fun p hp => ⟨fun n hn => ?_, fun y hy => ?_⟩⟩
    · rw [map_places, Listing.assign, hrows, places_map, List.map_map]
      refine List.map_congr_left fun p hp => List.map_congr_left fun n _ => ?_
      rw [hvalue p hp]
      rfl
    · have hne : n ≠ x.temporary := fun heq => hfresh (heq ▸ hn)
      refine (hold n (h.columns n (List.mem_append_left _ hn)) hne p).trans ?_
      exact (hcells p hp).1 n hn
    · rcases List.mem_append.1 hy with hy | hy
      · have hne : y.temporary ≠ x.temporary :=
          fun heq => hcalls (heq ▸ List.mem_map_of_mem hy)
        have hmem := h.columns y.temporary (List.mem_append_right _ (List.mem_map_of_mem hy))
        exact (hold _ hmem hne p).trans ((hcells p hp).2 y hy)
      · cases List.mem_singleton.1 hy
        exact (hcell _ (self_mem_withName _ _) p).trans (if_pos rfl)

/-- The cells of what extends a listing, by the names that an expression may refer to. -/
theorem cell_eq_resolved {row : Row} {p : Place Row}
    (hown : ∀ n ∈ l.columns, cell l'.columns row n = cell l.columns p.here n)
    (hcalls : ∀ x ∈ calls, cell l'.columns row x.temporary = value x (p.map (cell l.columns)))
    {n : String} (hn : n ∈ l.columns ∨ n ∈ calls.map (·.temporary)) :
    cell l'.columns row n = resolved calls value (p.map (cell l.columns)) n := by
  rw [resolved]
  cases hfind : calls.find? (·.temporary == n) with
  | some x =>
      have hname : x.temporary = n := by simpa using List.find?_some hfind
      rw [← hname]
      exact hcalls x (List.mem_of_find?_eq_some hfind)
  | none =>
      refine hown n (hn.resolve_right fun hmem => ?_)
      obtain ⟨x, hx, hname⟩ := List.mem_map.1 hmem
      simpa [hname] using List.find?_eq_none.1 hfind x hx

/-- A predicate over a row and its calls, when the columns of the calls are dropped again. -/
theorem restrict_rows (h : Extends l l' calls value) (hnodup : l.columns.Nodup)
    (hlength : ∀ row ∈ l.rows, row.length = l.columns.length) {q : Env → Bool}
    (hq : ∀ f g : Env, (∀ n, n ∈ l.columns ∨ n ∈ calls.map (·.temporary) → f n = g n) →
      q f = q g) :
    (l'.restrict fun p => q p.here).rows.map (fun row => l.columns.map (cell l'.columns row)) =
      (l.restrict fun p => q (resolved calls value p)).rows := by
  obtain ⟨row, hrows, hcells⟩ := h.rows
  rw [Listing.rows_restrict, hrows, List.filter_map, List.map_map, Listing.restrict]
  have hholds : ∀ p ∈ places l.rows, q (cell l'.columns (row p)) =
      q (resolved calls value (p.map (cell l.columns))) := by
    intro p hp
    refine hq _ _ fun n hn => ?_
    exact cell_eq_resolved (hcells p hp).1 (hcells p hp).2 hn
  refine (congrArg _ (List.filter_congr hholds)).trans (List.map_congr_left fun p hp => ?_)
  have hplace := (List.mem_filter.1 hp).1
  have hhere : p.here ∈ l.rows := by
    have hall := all_of_mem_places hplace
    exact hall ▸ p.here_mem_all
  refine (List.map_congr_left fun n hn => (hcells p hplace).1 n hn).trans ?_
  exact map_cell hnodup (hlength _ hhere)

/-- An assignment from a row and its calls, when the columns of the calls are dropped again. -/
theorem assign_rows (h : Extends l l' calls value) (name : String) {v : Env → Scalar}
    (hv : ∀ f g : Env, (∀ n, n ∈ l.columns ∨ n ∈ calls.map (·.temporary) → f n = g n) →
      v f = v g) :
    (l'.assign name fun p => v p.here).rows.map
        (fun row => (withName l.columns name).map (cell (withName l'.columns name) row)) =
      (l.assign name fun p => v (resolved calls value p)).rows := by
  obtain ⟨row, hrows, hcells⟩ := h.rows
  have hmem : ∀ n ∈ withName l.columns name, n ∈ withName l'.columns name := by
    intro n hn
    rw [mem_withName_iff] at hn ⊢
    exact hn.imp_left fun hown => h.columns n (List.mem_append_left _ hown)
  rw [Listing.rows_assign, hrows, List.map_map, List.map_map]
  refine List.map_congr_left fun p hp => List.map_congr_left fun n hn => ?_
  refine (cell_map_self (hmem n hn) _).trans ?_
  by_cases hname : n = name
  · rw [if_pos hname, if_pos hname]
    refine hv _ _ fun m hm => ?_
    exact cell_eq_resolved (hcells p hp).1 (hcells p hp).2 hm
  · rw [if_neg hname, if_neg hname]
    exact (hcells p hp).1 n ((mem_withName_iff.1 hn).resolve_right hname)

end Extends

/-! ## Columns for calls -/

variable {calls : List ExtractedCall}

theorem not_isNative {x : ExtractedCall} (h : isNative c x = false) (w : Window) (p : Place Env) :
    W.callAt c w x p = W.reading.joinedValue w.partition x p.all p.here := by
  rw [callAt, h, if_neg Bool.false_ne_true]

theorem joinedValue_of_aggregates {R : Reading ω} {x : ExtractedCall} (h : R.aggregates x = true)
    (groups : List String) (rows : List Env) (row : Env) :
    R.windowValue groups x rows row = R.joinedValue groups x rows row := by
  rw [Reading.aggregates, Semantics.isAggregate] at h
  rw [Reading.windowValue, Reading.joinedValue]
  cases hform : R.functions.form? x.function x.args.length with
  | none => rfl
  | some form =>
      cases form with
      | ranking sql =>
          rw [hform] at h
          cases h
      | _ => rfl

theorem ranksAs_joinedValue {R : Reading ω} (hfunctions : c.functions = R.functions)
    (groups : List String) (rows : List Env) (x : ExtractedCall) :
    R.RanksAs c groups rows (fun x => R.joinedValue groups x rows) x := by
  intro source item hitem row hrow kept right
  cases hitem with
  | @rank form key rest r hform hranking hargs hkey hdescending hgroups _ =>
      rw [hfunctions] at hform
      subst hranking
      have hitem : R.itemValue rows kept [sided row right]
          { name := x.temporary, value := .rank r } = R.rankValue r rows row := rfl
      obtain ⟨rkey, descending, dense, rgroups, sql⟩ := r
      cases hkey
      cases hdescending
      cases hgroups
      rw [hitem]
      dsimp only
      rw [Reading.joinedValue, hform, hargs]
      cases dense <;> rfl

/-- A row in front of the values of calls. -/
theorem extends_withCalls (hnodup : l.columns.Nodup)
    (hlength : ∀ row ∈ l.rows, row.length = l.columns.length)
    (htemporaries : (calls.map (·.temporary)).Nodup) (hfresh : ∀ x ∈ calls, x.temporary ∉ l.columns)
    {joined : ExtractedCall → Env → Scalar} {value : ExtractedCall → Place Env → Scalar}
    (hvalue : ∀ x ∈ calls, ∀ p ∈ places l.rows,
      joined x (cell l.columns p.here) = value x (p.map (cell l.columns))) :
    Extends l
      { W.reading.withCalls joined calls l.toRowSet with groups := l.groups, order := l.order }
      calls value where
  nodup := by
    have hnames : ((W.reading.aggregatesFirst calls).map (·.temporary)).Nodup :=
      ((Reading.perm_aggregatesFirst calls).map _).nodup_iff.2 htemporaries
    refine List.nodup_append.2 ⟨hnodup, hnames, ?_⟩
    rintro n hn m hm rfl
    obtain ⟨x, hx, rfl⟩ := List.mem_map.1 hm
    exact hfresh x ((Reading.perm_aggregatesFirst calls).mem_iff.1 hx) hn
  columns := by
    intro n hn
    refine List.mem_append.2 ((List.mem_append.1 hn).imp_right fun hn => ?_)
    exact ((Reading.perm_aggregatesFirst calls).map _).mem_iff.2 hn
  groups := rfl
  order := rfl
  rows := by
    refine ⟨fun p => p.here ++ (W.reading.aggregatesFirst calls).map fun x =>
      joined x (cell l.columns p.here), ?_, fun p hp => ?_⟩
    · have hrows := congrArg (List.map fun row =>
        row ++ (W.reading.aggregatesFirst calls).map fun x => joined x (cell l.columns row))
        (map_here_places l.rows)
      rw [List.map_map] at hrows
      exact hrows.symm
    have hhere : p.here.length = l.columns.length :=
      hlength _ (all_of_mem_places hp ▸ p.here_mem_all)
    refine ⟨fun n hn => cell_append_left hhere hn, fun x hx => ?_⟩
    have hfirst := (Reading.perm_aggregatesFirst (R := W.reading) calls).mem_iff.2 hx
    have hnames : ((W.reading.aggregatesFirst calls).map (·.temporary)).Nodup :=
      ((Reading.perm_aggregatesFirst calls).map _).nodup_iff.2 htemporaries
    refine (cell_append_right hhere (hfresh x hx)).trans ?_
    rw [cell_map, find?_key_eq ExtractedCall.temporary hnames hfirst]
    exact hvalue x hx p hp

/-- The level that stands for calls without a window has the rows of the state, in place. -/
theorem read_emulation (hfunctions : c.functions = W.functions) {s s' : State}
    (h : IsEmulation c s calls s') (hnodup : s.columns.Nodup)
    (hgroups : ∀ g ∈ s.groups, g ∈ s.columns) (htemporaries : (calls.map (·.temporary)).Nodup)
    (hfresh : ∀ x ∈ calls, x.temporary ∉ s.columns) :
    W.read s'.level = W.reading.withCalls
      (fun x => W.reading.joinedValue s.groups x (W.read s.level).envs) calls (W.read s.level) := by
  have hcolumns : s.columns = (W.read s.level).columns := (W.columns_read s.level).symm
  have hlength : ∀ row ∈ (W.read s.level).rows, row.length = (W.read s.level).columns.length := by
    rw [W.columns_read]
    exact fun row => W.length_of_mem_read
  have hitems := h.isWindowless
  have hranks : ∀ x ∈ calls, W.reading.RanksAs c s.groups (W.read s.level).envs
      (fun x => W.reading.joinedValue s.groups x (W.read s.level).envs) x :=
    fun x _ => ranksAs_joinedValue hfunctions _ _ x
  have houter : ∀ x ∈ calls, x.temporary ∉ s.groups :=
    fun x hx hgroup => hfresh x hx (hgroups x.temporary hgroup)
  rw [hcolumns] at hnodup
  cases h with
  | ranks _ hemulated hnone =>
      refine (readBody_of_isWindowless hitems _ _).trans ?_
      rw [Level.body, hcolumns]
      exact Reading.readBody_ranks hfunctions hemulated hnone hnodup hlength hranks
  | @joined _ name emulated _ _ hemulated hon =>
      have hright : W.read (.subquery s.level name ((Body.identity s.columns).summary s.groups
          (emulated.filterMap Compiler.Emulated.aggregate?))) =
            W.reading.readBody ((Body.identity s.columns).summary s.groups
              (emulated.filterMap Compiler.Emulated.aggregate?)) (W.read s.level).envs
                ((W.read s.level).envs.map fun row _ => row) := by
        refine readBody_of_isWindowless (List.forall_mem_append.2 ⟨?_, ?_⟩) _ _
        · intro item hitem
          obtain ⟨group, _, rfl⟩ := List.mem_map.1 hitem
          exact isWindowless_column none group group
        · exact isWindowless_aggregates hemulated
      refine (readBody_of_isWindowless hitems _ _).trans ?_
      rw [Level.body, hright, hcolumns]
      exact Reading.readBody_joined hfunctions hemulated hon hnodup hlength htemporaries houter
        (fun x _ hx => joinedValue_of_aggregates hx s.groups _) hranks

theorem ensures_emulateAll (hfunctions : c.functions = W.functions) (h : W.Reads c source s l)
    (hnodup : l.columns.Nodup) (hcalls : ∀ x ∈ calls, ∀ n ∈ x.call.columns, n ∈ l.columns)
    (hjoined : ∀ x ∈ calls, isNative c x = false) (htemporaries : (calls.map (·.temporary)).Nodup)
    (hfresh : ∀ x ∈ calls, x.temporary ∉ l.columns) :
    (c.emulateAll s calls).Ensures fun s' => ∃ l', W.Reads c source s' l' ∧
      Extends l l' calls (W.callAt c l.window) := by
  have hcolumns := h.columns
  have hreaches : (c.emulateAll s calls).Ensures fun s' =>
      Gains c source s (calls.map (·.temporary)) s' :=
    .of_after fun before => (ensuresAfter_emulateAll_gains h.reached
      (hcolumns ▸ hcalls)).imp fun _ _ h => h.1
  have hread : (c.emulateAll s calls).Ensures fun s' => W.read s'.level =
      W.reading.withCalls (fun x => W.reading.joinedValue l.groups x l.envs) calls l.toRowSet := by
    refine .of_after fun before => (ensuresAfter_emulateAll s calls).imp ?_
    rintro s' _ ⟨hemulation, _⟩
    rw [← hcolumns] at hnodup hfresh
    have hlevel := read_emulation hfunctions hemulation hnodup h.reached.isClosed.groups
      htemporaries hfresh
    rwa [h.level, h.groups] at hlevel
  refine (hreaches.and hread).imp fun s' ⟨hs', hlevel⟩ => ⟨_, ⟨hs'.reached, hlevel, ?_, ?_⟩,
    extends_withCalls hnodup (fun _ => h.length_of_mem) htemporaries hfresh ?_⟩
  · rw [hs'.groups, h.groups]
  · rw [hs'.order, h.order]
  · intro x hx p hp
    rw [not_isNative (hjoined x hx), Place.all_map, all_of_mem_places hp]
    rfl

/-- Calls over a window are assigned one after another, each seeing the columns of the first. -/
theorem ensures_assigns {l' : Listing} {taken : List ExtractedCall}
    (hext : Extends l l' taken (W.callAt c l.window)) (h : W.Reads c source s l')
    (hwindow : ∀ n ∈ l.window.columns, n ∈ l.columns)
    (hcalls : ∀ x ∈ calls, ∀ n ∈ x.call.columns, n ∈ l.columns)
    (hnative : ∀ x ∈ calls, isNative c x = true)
    (htemporaries : ((taken ++ calls).map (·.temporary)).Nodup)
    (hfresh : ∀ x ∈ calls, x.temporary ∉ l.columns) :
    (calls.foldlM (fun s x => c.assign s true x.temporary x.call) s).Ensures fun s' =>
      ∃ l'', W.Reads c source s' l'' ∧ Extends l l'' (taken ++ calls) (W.callAt c l.window) := by
  induction calls generalizing s l' taken with
  | nil => exact .pure ⟨l', h, by rwa [List.append_nil]⟩
  | cons x rest ih =>
      have hown : ∀ n ∈ l.columns, n ∈ l'.columns :=
        fun n hn => hext.columns n (List.mem_append_left _ hn)
      have hnew : x.temporary ∉ taken.map (·.temporary) := by
        rw [List.map_append] at htemporaries
        exact fun hmem => (List.nodup_append.1 htemporaries).2.2 _ hmem _ List.mem_cons_self rfl
      rw [List.foldlM_cons]
      refine (ensures_assign h hext.nodup true x.temporary fun n hn =>
        hown n (hcalls x List.mem_cons_self n hn)).bind fun s₁ h₁ => ?_
      have hext₁ := hext.assign (x := x) (hfresh x List.mem_cons_self) hnew
        (v := fun p => if true then W.valueAt l'.window p x.call else W.value x.call [p.here]) ?_
      · have happend : taken ++ x :: rest = taken ++ [x] ++ rest := by simp
        rw [happend] at htemporaries ⊢
        refine ih hext₁ h₁ (fun y hy => ?_) (fun y hy => ?_) htemporaries fun y hy => ?_
        · exact hcalls y (List.mem_cons_of_mem _ hy)
        · exact hnative y (List.mem_cons_of_mem _ hy)
        · exact hfresh y (List.mem_cons_of_mem _ hy)
      · intro f g p hfg
        rw [if_pos rfl, callAt, hnative x List.mem_cons_self, if_pos rfl, hext.window]
        refine W.valueAt_congr (fun y hy n hn => ?_) fun y hy n hn => ?_
        · exact hfg y hy n (hwindow n hn)
        · exact hfg y hy n (hcalls x List.mem_cons_self n hn)

/-- Every call gets a column with its value, whichever way it is computed. -/
theorem ensures_materialise (hfunctions : c.functions = W.functions) (h : W.Reads c source s l)
    (hnodup : l.columns.Nodup) (hcalls : ∀ x ∈ calls, ∀ n ∈ x.call.columns, n ∈ l.columns)
    (htemporaries : (calls.map (·.temporary)).Nodup)
    (hfresh : ∀ x ∈ calls, x.temporary ∉ l.columns) :
    (c.materialise s calls).Ensures fun s' => ∃ l', W.Reads c source s' l' ∧
      Extends l l' calls (W.callAt c l.window) := by
  by_cases hwindows : c.hasWindows = true
  · have hsome : ∀ {p : ExtractedCall → Bool} {x}, x ∈ calls.filter p → x ∈ calls :=
      fun hx => (List.mem_filter.1 hx).1
    have hperm : ((calls.filter fun x => c.needsJoin x.call) ++
        calls.filter fun x => !c.needsJoin x.call).Perm calls := List.filter_append_perm _ calls
    have hjoined : (if (calls.filter fun x => c.needsJoin x.call).isEmpty then pure s
        else c.emulateAll s (calls.filter fun x => c.needsJoin x.call) : BuildM State).Ensures
          fun s' => ∃ l', W.Reads c source s' l' ∧
            Extends l l' (calls.filter fun x => c.needsJoin x.call) (W.callAt c l.window) := by
      split
      · next hnone =>
          rw [List.isEmpty_iff.1 hnone]
          exact .pure ⟨l, h, .refl hnodup⟩
      · refine ensures_emulateAll hfunctions h hnodup (fun x hx => hcalls x (hsome hx)) ?_
          (htemporaries.sublist (List.filter_sublist.map _)) fun x hx => hfresh x (hsome hx)
        intro x hx
        rw [isNative, (List.mem_filter.1 hx).2, Bool.not_true, Bool.and_false]
    rw [materialise_eq hwindows]
    refine hjoined.bind fun s₁ ⟨l₁, h₁, hext⟩ => ?_
    refine (ensures_assigns hext h₁ h.mem_window (fun x hx => hcalls x (hsome hx)) ?_
      ((hperm.map _).nodup_iff.2 htemporaries) fun x hx => hfresh x (hsome hx)).imp ?_
    · intro x hx
      rw [isNative, hwindows, (List.mem_filter.1 hx).2, Bool.true_and]
    · rintro s₂ ⟨l₂, h₂, hext₂⟩
      exact ⟨l₂, h₂, hext₂.mono hperm.symm.subset⟩
  · rw [Compiler.materialise, if_pos (by simpa using hwindows)]
    refine ensures_emulateAll hfunctions h hnodup hcalls (fun x _ => ?_) htemporaries hfresh
    rw [isNative, (by simpa using hwindows : c.hasWindows = false), Bool.false_and]

/-! ## Predicates and assignments over temporary columns -/

section

variable {rest : Expr} (hfunctions : c.functions = W.functions) (h : W.Reads c source s l)
  (hnodup : l.columns.Nodup) (hcalls : ∀ x ∈ calls, ∀ n ∈ x.call.columns, n ∈ l.columns)
  (hrest : ∀ n ∈ rest.columns, n ∈ l.columns ∨ n ∈ calls.map (·.temporary))
  (htemporaries : (calls.map (·.temporary)).Nodup)
  (hfresh : ∀ x ∈ calls, x.temporary ∉ l.columns)

include hfunctions h hnodup hcalls hrest htemporaries hfresh

/-- A predicate that is left of one with calls keeps the rows in which it holds of their values. -/
theorem ensures_filter_calls :
    (do
      let filtered ← c.filterRows (← c.materialise s calls) rest
      Compiler.selectNames filtered s.columns : BuildM State).Ensures fun s' =>
        W.Reads c source s'
          (l.restrict fun p => W.holds rest (resolved calls (W.callAt c l.window) p)) := by
  refine (ensures_materialise hfunctions h hnodup hcalls htemporaries hfresh).bind ?_
  rintro s₁ ⟨l₁, h₁, hext⟩
  refine (ensures_filterRows h₁ hext.nodup fun n hn =>
    hext.columns n (List.mem_append.2 (hrest n hn))).bind fun s₂ h₂ => ?_
  refine (ensures_selectNames h₂ (fun g hg => ?_) fun key hkey => ?_).imp fun s₃ h₃ => ?_
  · exact h.reached.isClosed.groups g (h.groups.trans hext.groups.symm ▸ hg)
  · exact h.reached.isClosed.order key (h.order.trans hext.order.symm ▸ hkey)
  · refine ⟨h₃.reached, h₃.level.trans ?_, h₃.groups.trans hext.groups,
      h₃.order.trans hext.order⟩
    rw [h.columns]
    refine congrArg (RowSet.mk l.columns) ?_
    refine hext.restrict_rows hnodup (fun _ => h.length_of_mem) fun f g hfg => ?_
    exact W.holds_congr fun n hn => hfg n (hrest n hn)

/-- What is left of an assigned expression with calls is assigned. -/
theorem ensures_assign_calls (name : String) :
    (do
      let assigned ← c.assign (← c.materialise s calls) false name rest
      Compiler.selectNames assigned (withName s.columns name) : BuildM State).Ensures fun s' =>
        W.Reads c source s'
          (l.assign name fun p => W.value rest [resolved calls (W.callAt c l.window) p]) := by
  refine (ensures_materialise hfunctions h hnodup hcalls htemporaries hfresh).bind ?_
  rintro s₁ ⟨l₁, h₁, hext⟩
  refine (ensures_assign h₁ hext.nodup false name fun n hn =>
    hext.columns n (List.mem_append.2 (hrest n hn))).bind fun s₂ h₂ => ?_
  have hclosed := h.reached.isClosed
  refine (ensures_selectNames h₂ (fun g hg => ?_) fun key hkey n hn => ?_).imp fun s₃ h₃ => ?_
  · exact mem_withName (hclosed.groups g (h.groups.trans hext.groups.symm ▸ hg)) name
  · exact mem_withName (hclosed.order key (h.order.trans hext.order.symm ▸ hkey) n hn) name
  · refine ⟨h₃.reached, h₃.level.trans ?_, h₃.groups.trans hext.groups,
      h₃.order.trans hext.order⟩
    rw [h.columns]
    refine congrArg (RowSet.mk (withName l.columns name)) ?_
    refine hext.assign_rows name (v := fun row => W.value rest [row]) fun f g hfg => ?_
    exact W.value_congr_row fun n hn => hfg n (hrest n hn)

end

end Windows

/-! ## Calls that are taken out -/

namespace Compiler

variable {c : Compiler} {s : State} {e : Expr} {p : Progress}

/-- What is left of an expression and the calls that are taken out of it, the next names being those
after the ones that were issued. -/
def extraction (c : Compiler) (issued : Nat) (e : Expr) : Expr × List ExtractedCall :=
  let (rest, x) := (e.extract c.isWindowCall).run { issued, calls := [] }
  (rest, x.calls)

theorem columns_extraction (c : Compiler) (issued : Nat) (e : Expr) :
    (∀ x ∈ (c.extraction issued e).2, ∀ n ∈ x.call.columns, n ∈ e.columns) ∧
      ∀ n ∈ (c.extraction issued e).1.columns,
        n ∈ e.columns ∨ n ∈ (c.extraction issued e).2.map (·.temporary) := by
  obtain ⟨calls, hafter, _, hcalls, hrest⟩ :=
    Expr.takes_extract c.isWindowCall e { issued, calls := [] }
  have htaken : (c.extraction issued e).2 = calls := congrArg Extraction.calls hafter
  rw [htaken]
  exact ⟨fun x hx => (hcalls x hx).2, hrest⟩

theorem exists_run_filter (hwindow : c.needsWindow e = true) {answer : State × Progress}
    (hrun : (c.filter s e).run p = .ok answer) :
    (∀ n ∈ e.columns, n ∈ s.columns) ∧
      ∃ q, (do
        let taken := c.extraction p.temporaries e
        let filtered ← c.filterRows (← c.materialise s taken.2) taken.1
        selectNames filtered s.columns : BuildM State).run q = .ok answer := by
  rw [filter, StateT.run_bind] at hrun
  obtain ⟨⟨_, q⟩, hcheck, hrun⟩ := exists_of_bind_eq_ok hrun
  rw [if_pos hwindow] at hrun
  cases hreferences : s.checkReferences e with
  | error error =>
      rw [hreferences] at hcheck
      cases hcheck
  | ok =>
      rw [hreferences] at hcheck
      cases hcheck
      exact ⟨State.mem_of_checkNames hreferences, _, hrun⟩

theorem exists_run_mutate (hwindow : c.needsWindow e = true)
    (hextracted : c.hasWindows = false ∨ c.needsJoin e = true) {name : String}
    {answer : State × Progress} (hrun : (c.mutate s name e).run p = .ok answer) :
    (∀ n ∈ e.columns, n ∈ s.columns) ∧
      ∃ q, (do
        let taken := c.extraction p.temporaries e
        let assigned ← c.assign (← c.materialise s taken.2) false name taken.1
        selectNames assigned (withName s.columns name) : BuildM State).run q = .ok answer := by
  have hjoined : (c.hasWindows && !c.needsJoin e) = false := by
    rcases hextracted with h | h <;> simp [h]
  rw [mutate, StateT.run_bind] at hrun
  obtain ⟨⟨_, q⟩, hcheck, hrun⟩ := exists_of_bind_eq_ok hrun
  rw [hwindow, hjoined] at hrun
  cases hreferences : s.checkReferences e with
  | error error =>
      rw [hreferences] at hcheck
      cases hcheck
  | ok =>
      rw [hreferences] at hcheck
      cases hcheck
      have hcolumns : withName s.columns name =
          if s.columns.contains name then s.columns else s.columns ++ [name] := by
        simp only [withName, List.contains_iff_mem]
      rw [hcolumns]
      exact ⟨State.mem_of_checkNames hreferences, { p with temporaries := _ }, hrun⟩

end Compiler

namespace Windows

/-- Where the names for the calls of an expression are no columns yet, a predicate keeps rows as they
are, an assignment changes no other column, and both find the value of a call under its name. -/
theorem read_extracted (W : Windows ω) (dialect : Dialect) (config : Config) {source : Source}
    {s s' : State} {e : Expr} {p later : Progress}
    (hs : Reached { dialect, config, functions := W.functions } source s)
    (hnodup : s.columns.Nodup)
    (hwindow : Compiler.needsWindow { dialect, config, functions := W.functions } e = true)
    (hfresh : ∀ x ∈ (Compiler.extraction { dialect, config, functions := W.functions }
      p.temporaries e).2, x.temporary ∉ s.columns) :
    let c : Compiler := { dialect, config, functions := W.functions }
    let taken := c.extraction p.temporaries e
    let t := W.read s.level
    let row (q : Place Row) : Env :=
      resolved taken.2 (W.callAt c { partition := s.groups, order := s.order })
        (q.map (cell t.columns))
    ((c.filter s e).run p = .ok (s', later) →
      W.read s'.level =
        { columns := s.columns
          rows := ((places t.rows).filter fun q => W.holds taken.1 (row q)).map (·.here) }) ∧
    ∀ name, c.hasWindows = false ∨ c.needsJoin e = true →
      (c.mutate s name e).run p = .ok (s', later) →
      W.read s'.level =
        { columns := withName s.columns name
          rows := (places t.rows).map fun q => (withName s.columns name).map fun n =>
            if n = name then W.value taken.1 [row q] else cell t.columns q.here n } := by
  intro c taken t row
  have hcolumns : t.columns = s.columns := W.columns_read s.level
  have hreads : W.Reads c source s { t with groups := s.groups, order := s.order } :=
    ⟨hs, rfl, rfl, rfl⟩
  have htemporaries := (Expr.temporaries_extract c.isWindowCall e p.temporaries).1
  obtain ⟨hcalls, hrest⟩ := c.columns_extraction p.temporaries e
  rw [← hcolumns] at hnodup hfresh
  constructor
  · intro hrun
    obtain ⟨he, q, hrun⟩ := Compiler.exists_run_filter hwindow hrun
    rw [← hcolumns] at he
    have hfilter := ensures_filter_calls rfl hreads hnodup (fun x hx n hn => he n (hcalls x hx n hn))
      (fun n hn => (hrest n hn).imp_left (he n)) htemporaries hfresh q s' later hrun
    rw [hfilter.level, ← hcolumns]
    rfl
  · intro name hextracted hrun
    obtain ⟨he, q, hrun⟩ := Compiler.exists_run_mutate hwindow hextracted hrun
    rw [← hcolumns] at he
    have hassign := ensures_assign_calls rfl hreads hnodup
      (fun x hx n hn => he n (hcalls x hx n hn)) (fun n hn => (hrest n hn).imp_left (he n))
      htemporaries hfresh name q s' later hrun
    rw [hassign.level, ← hcolumns]
    rfl

/-- A predicate over the sums of groups, beside a column that is named like another temporary. -/
theorem read_extracted_sums :
    let rows := [[.utf8 "a", .int64 1], [.null, .int64 4], [.utf8 "a", .int64 2], [.null, .int64 5]]
    let W := integers (rows.map (cell ["win02", "x"]))
    let c : Compiler := .builtin .ansi .default
    let s : State :=
      { State.ofSource { schema := none, name := "t", columns := ["win02", "x"] } with
        groups := ["win02"] }
    ∃ s' later,
      (c.filter s (.binary .gt (.plainCall "sum" [.column "x"]) (.literal (.int64 3)))).run .start =
        .ok (s', later) ∧
      W.read s'.level =
        { columns := ["win02", "x"], rows := [[.null, .int64 4], [.null, .int64 5]] } := by
  intro rows W c s
  let e : Expr := .binary .gt (.plainCall "sum" [.column "x"]) (.literal (.int64 3))
  obtain ⟨⟨s', later⟩, hrun⟩ := exists_of_isOk (r := (c.filter s e).run .start) (by decide +kernel)
  have hs : Reached c { schema := none, name := "t", columns := ["win02", "x"] } s :=
    Reached.start.move (.regroup (by decide))
  have hfresh : ∀ x ∈ (c.extraction Progress.start.temporaries e).2, x.temporary ∉ s.columns := by
    decide +kernel
  have hread := (read_extracted W .ansi .default (e := e) (p := .start) hs (by decide) (by decide)
    hfresh).1 hrun
  exact ⟨s', later, hrun, hread.trans (by decide +kernel)⟩

/-- A column that is named like a temporary is lost to it: the rows that are left have the number of
rows where they had cells of their own. -/
theorem temporary_replaces_column :
    let rows := [[.int64 7, .int64 1], [.int64 7, .int64 3]]
    let W := integers (rows.map (cell ["win01", "x"]))
    let c : Compiler := .builtin .ansi .default
    let s := State.ofSource { schema := none, name := "t", columns := ["win01", "x"] }
    W.read s.level = { columns := ["win01", "x"], rows } ∧
      ((c.filter s (.binary .gt (.column "x") (.plainCall "n" []))).run .start).toOption.map
          (fun built => W.read built.1.level) =
        some { columns := ["win01", "x"], rows := [[.int64 2, .int64 3]] } := by
  decide +kernel

end Windows

end SqlChain
