import SqlChain.Proofs.Chain.Emulation
import SqlChain.Proofs.Meaning.Reading

/-!
# The windows of a row

A window call that ranges over the group of a row is an aggregate of the rows of the group or a
place among their values. What stands for the call without a window has the same value, a count of
the rows in front being the place (`itemValue_of_rank`).
-/

namespace SqlChain

namespace Reading

variable {ω : Type} {R : Reading ω}

def aggregates (R : Reading ω) (x : ExtractedCall) : Bool :=
  R.isAggregate x.function x.args.length

/-- The rows of the group of a row, nulls being equal to each other. -/
def peers (groups : List String) (rows : List Env) (row : Env) : List Env :=
  rows.filter fun other => GroupKey.equal (groups.map other) (groups.map row)

/-- The value of a window call in a row among others. -/
def windowValue (R : Reading ω) (groups : List String) (x : ExtractedCall) (rows : List Env)
    (row : Env) : Scalar :=
  match R.functions.form? x.function x.args.length, x.args with
  | some (.ranking sql), key :: _ =>
    let value env := R.value (key.value.descending?.getD key.value) [env]
    let order := R.order.directed key.value.descending?.isSome
    let values := (peers groups rows row).map value
    .int64 (.ofNat
      (if sql = "DENSE_RANK" then order.denseRank values (value row)
        else order.rank values (value row)))
  | _, _ => R.value x.call (peers groups rows row)

/-! ## The group of a row -/

theorem equal_map_iff (groups : List String) (row other : Env) :
    GroupKey.equal (groups.map row) (groups.map other) = true ↔
      ∀ g ∈ groups, (row g).keyEqual (other g) = true := by
  induction groups with
  | nil => simp
  | cons g rest ih => simp [GroupKey.equal, ih]

theorem mem_peers {groups : List String} {rows : List Env} {row : Env} (h : row ∈ rows) :
    row ∈ peers groups rows row :=
  List.mem_filter.2 ⟨h, GroupKey.equal_refl _⟩

/-- The first of elements with equal keys stands for all of them. -/
theorem representatives_of_equal {α : Type} (key : α → GroupKey) {k : GroupKey} {xs : List α}
    (hne : xs ≠ []) (h : ∀ x ∈ xs, GroupKey.equal (key x) k = true) :
    ∃ x ∈ xs, representatives key xs = [x] := by
  cases xs with
  | nil => exact absurd rfl hne
  | cons x rest =>
      refine ⟨x, List.mem_cons_self, ?_⟩
      have hnone : (representatives key rest).filter
          (fun y => !GroupKey.equal (key x) (key y)) = [] := by
        rw [List.filter_eq_nil_iff]
        intro y hy
        have hyk := h y (List.mem_cons_of_mem _ (mem_of_mem_representatives hy))
        rw [GroupKey.equal_congr_right hyk, h x List.mem_cons_self]
        simp
      rw [representatives, hnone]

/-- A row agrees with the first row of a group if it belongs to it. -/
theorem all_groupCell {groups : List String} {rows : List Env} {x : Env} (hx : x ∈ rows)
    (row : Env) :
    (groups.all fun g => (row g).keyEqual (groupCell
        (rows.filter fun y => GroupKey.equal (groups.map x) (groups.map y)) g)) =
      GroupKey.equal (groups.map x) (groups.map row) := by
  have hmem : x ∈ rows.filter fun y => GroupKey.equal (groups.map x) (groups.map y) :=
    List.mem_filter.2 ⟨hx, GroupKey.equal_refl _⟩
  cases hgroup : rows.filter fun y => GroupKey.equal (groups.map x) (groups.map y) with
  | nil =>
      rw [hgroup] at hmem
      cases hmem
  | cons first rest =>
      have hfirst : GroupKey.equal (groups.map x) (groups.map first) = true := by
        have : first ∈ rows.filter fun y => GroupKey.equal (groups.map x) (groups.map y) := by
          rw [hgroup]
          exact List.mem_cons_self
        exact (List.mem_filter.1 this).2
      rw [GroupKey.equal_congr_left hfirst, GroupKey.equal_comm, Bool.eq_iff_iff, equal_map_iff,
        List.all_eq_true]
      rfl

/-- A row agrees with the first row of exactly one group, which is its own. -/
theorem filter_groupsOf {groups : List String} {rows : List Env} {row : Env} (h : row ∈ rows) :
    (groupsOf groups id rows).filter
        (fun group => groups.all fun g => (row g).keyEqual (groupCell group g)) =
      [peers groups rows row] := by
  rw [groupsOf]
  split
  · next hnone =>
      obtain rfl := List.isEmpty_iff.1 hnone
      have hall : peers [] rows row = rows := List.filter_eq_self.2 fun _ _ => rfl
      rw [hall, List.filter_eq_self.2 (by simp)]
  · have hcondition : ∀ x ∈ representatives (fun row : Env => groups.map row) rows,
        (groups.all fun g => (row g).keyEqual (groupCell
          (rows.filter fun y => GroupKey.equal (groups.map x) (groups.map y)) g)) =
            GroupKey.equal (groups.map x) (groups.map row) :=
      fun x hx => all_groupCell (mem_of_mem_representatives hx) row
    have hsome : (rows.filter fun y => GroupKey.equal (groups.map y) (groups.map row)) ≠ [] :=
      List.ne_nil_of_mem (mem_peers h)
    obtain ⟨x, hx, hrepresentatives⟩ := representatives_of_equal
      (fun row : Env => groups.map row) hsome fun y hy => (List.mem_filter.1 hy).2
    have hxrow := (List.mem_filter.1 hx).2
    have hpeers : (rows.filter fun y => GroupKey.equal (groups.map x) (groups.map y)) =
        peers groups rows row := by
      refine List.filter_congr fun y _ => ?_
      rw [GroupKey.equal_congr_left hxrow, GroupKey.equal_comm]
    rw [groupsBy, List.filter_map]
    refine (congrArg _ (List.filter_congr hcondition)).trans ?_
    rw [filter_representatives (fun y z hyz => GroupKey.equal_congr_left hyz _)]
    rw [hrepresentatives, List.map_singleton, ← hpeers]
    rfl

/-! ## Ranks -/

theorem passes_rank {r : CorrelatedRank} {row other : Env}
    (hrow : (R.value r.key [row]).isNull = false) (hother : (R.value r.key [other]).isNull = false) :
    R.passes R.order (fun table => if table = Compiler.rankTable then other else row) r.conditions =
      (GroupKey.equal (r.groups.map other) (r.groups.map row) &&
        (R.order.directed r.descending).before (R.value r.key [other]) (R.value r.key [row])) := by
  rw [Bool.eq_iff_iff, Semantics.passes_iff, Bool.and_eq_true, equal_map_iff,
    CorrelatedRank.conditions, List.forall_mem_append]
  refine and_congr ?_ ?_
  · rw [List.forall_mem_map]
    refine forall₂_congr fun g _ => ?_
    exact R.truth_sameGroup _ _ _ _ g
  · rw [List.forall_mem_singleton, Semantics.truth, Semantics.termValue, Semantics.termValue,
      if_pos rfl, if_neg (by decide), Semantics.compared, hother, hrow]
    simp

/-- Counting the rows in front gives the place of the row among its peers. -/
theorem rankValue_eq {r : CorrelatedRank} {rows : List Env} {row : Env} (hrow : row ∈ rows)
    (hkeys : ∀ other ∈ rows, (R.value r.key [other]).isNull = false) :
    let values := (peers r.groups rows row).map fun other => R.value r.key [other]
    let order := R.order.directed r.descending
    R.rankValue r rows row = .int64 (.ofNat
      (if r.dense then order.denseRank values (R.value r.key [row])
        else order.rank values (R.value r.key [row]))) := by
  intro values order
  have hown : ∃ x ∈ values, x.keyEqual (R.value r.key [row]) = true :=
    ⟨_, List.mem_map_of_mem (mem_peers hrow), Scalar.keyEqual_refl _⟩
  have hfront : rows.filter (fun other => R.passes R.order
      (fun table => if table = Compiler.rankTable then other else row) r.conditions) =
        (peers r.groups rows row).filter fun other =>
          order.before (R.value r.key [other]) (R.value r.key [row]) := by
    rw [peers, List.filter_filter]
    refine List.filter_congr fun other hother => ?_
    rw [passes_rank (hkeys row hrow) (hkeys other hother), Bool.and_comm]
  have hvalues : ((peers r.groups rows row).filter fun other =>
      order.before (R.value r.key [other]) (R.value r.key [row])).map
        (fun other => R.value r.key [other]) =
          values.filter (order.before · (R.value r.key [row])) := by
    rw [List.filter_map]
    rfl
  have hsome : (values.filter (order.before · (R.value r.key [row]))).filter (!·.isNull) =
      values.filter (order.before · (R.value r.key [row])) := by
    rw [List.filter_eq_self]
    intro v hv
    obtain ⟨other, hother, rfl⟩ := List.mem_map.1 (List.mem_filter.1 hv).1
    rw [hkeys other (List.mem_filter.1 hother).1]
    rfl
  have hlength : ((peers r.groups rows row).filter fun other =>
      order.before (R.value r.key [other]) (R.value r.key [row])).length =
        values.countP (order.before · (R.value r.key [row])) := by
    rw [List.countP_eq_length_filter, ← hvalues, List.length_map]
  rw [rankValue, hfront, hvalues, hsome, hlength, order.denseRank_eq hown, order.rank_eq hown]
  split <;> rfl

/-! ## Items that stand for calls -/

section

variable {c : Compiler} {source : String} {groups : List String} {x : ExtractedCall} {item : Item}
  {rows : List Env} {row : Env}

theorem aggregates_of_aggregate (hfunctions : c.functions = R.functions)
    (h : Emulates c source groups x (.aggregate item)) : R.aggregates x = true := by
  cases h with
  | aggregate hform haggregate =>
      rw [hfunctions] at hform
      rwa [aggregates, Semantics.isAggregate, hform, Option.any_some]

theorem not_aggregates_of_rank (hfunctions : c.functions = R.functions)
    (h : Emulates c source groups x (.rank item)) : R.aggregates x = false := by
  cases h with
  | rank hform hranking =>
      rw [hfunctions] at hform
      rw [aggregates, Semantics.isAggregate, hform, hranking]
      rfl

theorem itemValue_of_aggregate (hfunctions : c.functions = R.functions)
    (h : Emulates c source groups x (.aggregate item)) (left : List Env) (kept : List SidedRow) :
    R.itemValue left kept ((peers groups rows row).map fun row _ => row) item =
      R.windowValue groups x rows row := by
  have haggregate := aggregates_of_aggregate hfunctions h
  rw [aggregates, Semantics.isAggregate] at haggregate
  have hwindow : R.windowValue groups x rows row = R.value x.call (peers groups rows row) := by
    rw [windowValue]
    split
    · next hform _ =>
        rw [hform] at haggregate
        cases haggregate
    · rfl
  rw [hwindow]
  cases h with
  | aggregate => exact congrArg (R.value x.call) (map_unsided none _)

/-- The values by which rows are ranked are no nulls. -/
def RanksValues (R : Reading ω) (x : ExtractedCall) (rows : List Env) : Prop :=
  ∀ sql key rest, R.functions.form? x.function x.args.length = some (.ranking sql) →
    x.args = key :: rest → ∀ row ∈ rows,
      (R.value (key.value.descending?.getD key.value) [row]).isNull = false

theorem itemValue_of_rank (hfunctions : c.functions = R.functions)
    (h : Emulates c source groups x (.rank item)) (hkeys : R.RanksValues x rows) (hrow : row ∈ rows)
    (kept : List SidedRow) (right : Env) :
    R.itemValue rows kept [sided row right] item = R.windowValue groups x rows row := by
  cases h with
  | @rank form key rest r hform hranking hargs hkey hdescending hgroups _ =>
      rw [hfunctions] at hform
      subst hranking
      have hvalues : ∀ other ∈ rows, (R.value r.key [other]).isNull = false := by
        rw [hkey]
        exact hkeys _ key rest hform hargs
      have hitem : R.itemValue rows kept [sided row right]
          { name := x.temporary, value := .rank r } = R.rankValue r rows row := rfl
      rw [hitem, rankValue_eq hrow hvalues, windowValue, hform, hargs, hkey, hdescending, hgroups]
      cases r.dense <;> rfl

end

end Reading

end SqlChain
