import Mathlib.Data.List.SplitBy
import SqlChain.Group.Run

/-!
# Runs of a list of rows

`Run.split` cuts a list of rows wherever the key changes. `IsRuns` says what a list of runs has
to be in order to be this cut, and `IsRuns.eq_split` that there is only one. A row at the end of
the rows either joins the last run or begins a new one.

`InOrder` says that no key comes back after it was followed by another one. The runs then have
different keys, and the other way round (`inOrder_iff_pairwise`).
-/

namespace SqlChain

namespace GroupKey

@[simp] theorem equal_refl (key : GroupKey) : equal key key = true := (equal_iff key key).2 rfl

theorem equal_comm (xs ys : GroupKey) : equal xs ys = equal ys xs := by
  rw [Bool.eq_iff_iff, equal_iff, equal_iff, eq_comm]

theorem equal_congr_left {xs ys : GroupKey} (h : equal xs ys = true) (zs : GroupKey) :
    equal xs zs = equal ys zs := by
  rw [Bool.eq_iff_iff, equal_iff, equal_iff, (equal_iff xs ys).1 h]

theorem equal_congr_right {xs ys : GroupKey} (h : equal xs ys = true) (zs : GroupKey) :
    equal zs xs = equal zs ys := by
  rw [equal_comm zs, equal_comm zs, equal_congr_left h]

end GroupKey

namespace Run

def sameKey (keys : Nat) (r s : Row) : Bool := GroupKey.equal (r.take keys) (s.take keys)

def ofRows (keys : Nat) (rows : List Row) : Run := ⟨(rows.headD []).take keys, rows⟩

/-- The maximal runs of neighbouring rows with the same key. -/
def split (keys : Nat) (rows : List Row) : List Run :=
  (rows.splitBy (sameKey keys)).map (ofRows keys)

@[simp] theorem split_nil (keys : Nat) : split keys [] = [] := rfl

end Run

/-- The runs are the rows, cut exactly where the key changes. -/
structure IsRuns (keys : Nat) (rows : List Row) (runs : List Run) : Prop where
  rows_eq : runs.flatMap Run.rows = rows
  key_eq : ∀ run ∈ runs, ∃ row rest, run.rows = row :: rest ∧ run.key = row.take keys
  equal_key : ∀ run ∈ runs, ∀ row ∈ run.rows, GroupKey.equal run.key (row.take keys) = true
  differ : runs.IsChain fun a b => GroupKey.equal a.key b.key = false

namespace IsRuns

variable {keys : Nat} {rows : List Row} {runs : List Run}

theorem nil (keys : Nat) : IsRuns keys [] [] :=
  ⟨rfl, by simp, by simp, List.isChain_nil⟩

theorem rows_ne_nil (h : IsRuns keys rows runs) {run : Run} (hr : run ∈ runs) : run.rows ≠ [] := by
  obtain ⟨row, rest, hrows, _⟩ := h.key_eq run hr
  simp [hrows]

theorem isChain_rows (h : IsRuns keys rows runs) {run : Run} (hr : run ∈ runs) :
    run.rows.IsChain fun r s => Run.sameKey keys r s = true := by
  apply List.Pairwise.isChain
  apply List.pairwise_of_forall_mem_list
  intro r hrow s hs
  have hkr := h.equal_key run hr r hrow
  have hks := h.equal_key run hr s hs
  rw [Run.sameKey, ← GroupKey.equal_congr_left hkr]
  exact hks

theorem isChain_getLast_head (h : IsRuns keys rows runs) :
    (runs.map Run.rows).IsChain fun a b =>
      ∃ ha hb, Run.sameKey keys (a.getLast ha) (b.head hb) = false := by
  rw [List.isChain_map]
  refine h.differ.imp_of_mem_imp ?_
  intro a b ha hb hab
  refine ⟨h.rows_ne_nil ha, h.rows_ne_nil hb, ?_⟩
  have hlast := h.equal_key a ha _ (List.getLast_mem (h.rows_ne_nil ha))
  have hhead := h.equal_key b hb _ (List.head_mem (h.rows_ne_nil hb))
  rw [Run.sameKey, ← GroupKey.equal_congr_left hlast, ← GroupKey.equal_congr_right hhead]
  exact hab

/-- There is only one way to cut rows into runs. -/
theorem eq_split (h : IsRuns keys rows runs) : runs = Run.split keys rows := by
  have hsplit : rows.splitBy (Run.sameKey keys) = runs.map Run.rows := by
    rw [List.splitBy_eq_iff]
    refine ⟨?_, ?_, ?_, h.isChain_getLast_head⟩
    · rw [← List.flatMap_def, h.rows_eq]
    · intro hnil
      obtain ⟨run, hr, hrows⟩ := List.mem_map.1 hnil
      exact h.rows_ne_nil hr hrows
    · intro m hm
      obtain ⟨run, hr, rfl⟩ := List.mem_map.1 hm
      exact h.isChain_rows hr
  have hrun : ∀ run ∈ runs, Run.ofRows keys run.rows = run := by
    intro run hr
    obtain ⟨row, rest, hrows, hkey⟩ := h.key_eq run hr
    rw [Run.ofRows, hrows, List.headD_cons, ← hkey, ← hrows]
  rw [Run.split, hsplit, List.map_map]
  symm
  calc
    runs.map (Run.ofRows keys ∘ Run.rows) = runs.map id := List.map_congr_left hrun
    _ = runs := List.map_id runs

theorem join {last : Run} (row : Row) (h : IsRuns keys rows (runs ++ [last]))
    (hk : GroupKey.equal last.key (row.take keys) = true) :
    IsRuns keys (rows ++ [row]) (runs ++ [⟨last.key, last.rows ++ [row]⟩]) := by
  refine ⟨?_, ?_, ?_, ?_⟩
  · simp [← h.rows_eq]
  · intro run hr
    rcases List.mem_append.1 hr with hr | hr
    · exact h.key_eq run (List.mem_append_left _ hr)
    · obtain ⟨first, rest, hrows, hkey⟩ := h.key_eq last (by simp)
      cases List.mem_singleton.1 hr
      exact ⟨first, rest ++ [row], by simp [hrows], hkey⟩
  · intro run hr r hrow
    rcases List.mem_append.1 hr with hr | hr
    · exact h.equal_key run (List.mem_append_left _ hr) r hrow
    · cases List.mem_singleton.1 hr
      rcases List.mem_append.1 hrow with hrow | hrow
      · exact h.equal_key last (by simp) r hrow
      · cases List.mem_singleton.1 hrow
        exact hk
  · have hd := h.differ
    rw [List.isChain_append] at hd ⊢
    simpa using hd

theorem begin (row : Row) (h : IsRuns keys rows runs)
    (hk : ∀ last ∈ runs.getLast?, GroupKey.equal last.key (row.take keys) = false) :
    IsRuns keys (rows ++ [row]) (runs ++ [⟨row.take keys, [row]⟩]) := by
  refine ⟨?_, ?_, ?_, ?_⟩
  · simp [h.rows_eq]
  · intro run hr
    rcases List.mem_append.1 hr with hr | hr
    · exact h.key_eq run hr
    · cases List.mem_singleton.1 hr
      exact ⟨row, [], rfl, rfl⟩
  · intro run hr r hrow
    rcases List.mem_append.1 hr with hr | hr
    · exact h.equal_key run hr r hrow
    · cases List.mem_singleton.1 hr
      cases List.mem_singleton.1 hrow
      exact GroupKey.equal_refl _
  · refine h.differ.append (List.isChain_singleton _) ?_
    simpa using hk

end IsRuns

theorem exists_isRuns (keys : Nat) (rows : List Row) : ∃ runs, IsRuns keys rows runs := by
  induction rows using List.reverseRecOn with
  | nil => exact ⟨[], .nil keys⟩
  | append_singleton rows row ih =>
      obtain ⟨runs, h⟩ := ih
      rcases runs.eq_nil_or_concat' with rfl | ⟨closed, last, rfl⟩
      · exact ⟨_, h.begin row (by simp)⟩
      · cases hk : GroupKey.equal last.key (row.take keys) with
        | true => exact ⟨_, h.join row hk⟩
        | false => exact ⟨_, h.begin row (by simpa using hk)⟩

theorem isRuns_split (keys : Nat) (rows : List Row) : IsRuns keys rows (Run.split keys rows) := by
  obtain ⟨runs, h⟩ := exists_isRuns keys rows
  exact h.eq_split ▸ h

/-- More rows leave all runs but the last as they are, and the last one can only grow. -/
theorem IsRuns.exists_append {keys : Nat} {rows : List Row} {closed : List Run} {last : Run}
    (h : IsRuns keys rows (closed ++ [last])) (more : List Row) :
    ∃ grown tail, Run.split keys (rows ++ more) = closed ++ grown :: tail ∧
      last.rows <+: grown.rows := by
  induction more using List.reverseRecOn with
  | nil => exact ⟨last, [], by simpa using h.eq_split.symm, List.prefix_refl _⟩
  | append_singleton more row ih =>
      obtain ⟨grown, tail, hsplit, hgrown⟩ := ih
      have hruns := isRuns_split keys (rows ++ more)
      rw [hsplit] at hruns
      rcases tail.eq_nil_or_concat' with rfl | ⟨tail, newest, rfl⟩
      · cases hk : GroupKey.equal grown.key (row.take keys) with
        | true =>
            refine ⟨⟨grown.key, grown.rows ++ [row]⟩, [], ?_, hgrown.trans ?_⟩
            · simpa using (hruns.join row hk).eq_split.symm
            · exact List.prefix_append _ _
        | false =>
            refine ⟨grown, [⟨row.take keys, [row]⟩], ?_, hgrown⟩
            simpa using (hruns.begin row (by simpa using hk)).eq_split.symm
      · have hruns' : IsRuns keys (rows ++ more) ((closed ++ grown :: tail) ++ [newest]) := by
          simpa using hruns
        cases hk : GroupKey.equal newest.key (row.take keys) with
        | true =>
            refine ⟨grown, tail ++ [⟨newest.key, newest.rows ++ [row]⟩], ?_, hgrown⟩
            simpa using (hruns'.join row hk).eq_split.symm
        | false =>
            refine ⟨grown, tail ++ [newest, ⟨row.take keys, [row]⟩], ?_, hgrown⟩
            have hnew := hruns'.begin row (by
              rw [List.getLast?_concat]
              simpa using hk)
            simpa using hnew.eq_split.symm

def Run.offset (runs : List Run) (i : Nat) : Nat := ((runs.take i).flatMap Run.rows).length

theorem Run.offset_mono (runs : List Run) {i j : Nat} (h : i ≤ j) :
    offset runs i ≤ offset runs j := by
  obtain ⟨rest, hrest⟩ : runs.take i <+: runs.take j := List.take_prefix_take_left h
  rw [offset, offset, ← hrest, List.flatMap_append, List.length_append]
  omega

/-- A run has ended within the rows when the next one begins in them. -/
theorem IsRuns.lt_length_iff {keys : Nat} {rows : List Row} {closed : List Run} {last : Run}
    (h : IsRuns keys rows (closed ++ [last])) (more : List Row) (i : Nat) :
    i < closed.length ↔
      i + 1 < (Run.split keys (rows ++ more)).length ∧
        Run.offset (Run.split keys (rows ++ more)) (i + 1) < rows.length := by
  obtain ⟨grown, tail, hsplit, hgrown⟩ := h.exists_append more
  have hlast : 0 < last.rows.length := List.length_pos_of_ne_nil (h.rows_ne_nil (by simp))
  have hrows : rows.length = (closed.flatMap Run.rows).length + last.rows.length := by
    simp [← h.rows_eq]
  have hclosed : Run.offset (closed ++ grown :: tail) closed.length =
      (closed.flatMap Run.rows).length := by
    simp [Run.offset]
  have hnext : Run.offset (closed ++ grown :: tail) (closed.length + 1) =
      (closed.flatMap Run.rows).length + grown.rows.length := by
    rw [Run.offset, List.take_append, List.take_of_length_le (by omega)]
    simp
  rw [hsplit]
  constructor
  · intro hi
    have hmono := Run.offset_mono (closed ++ grown :: tail) (show i + 1 ≤ closed.length by omega)
    refine ⟨by simp; omega, ?_⟩
    rw [hclosed] at hmono
    omega
  · rintro ⟨_, hoffset⟩
    by_contra hi
    have hmono := Run.offset_mono (closed ++ grown :: tail)
      (show closed.length + 1 ≤ i + 1 by omega)
    have hlength := hgrown.length_le
    rw [hnext] at hmono
    omega

/-! ## Keys that come back -/

/-- A run with this key has ended within the rows. -/
def WasClosed (keys : Nat) (rows : List Row) (key : GroupKey) : Prop :=
  ∃ r s, List.Sublist [r, s] rows ∧ GroupKey.equal (r.take keys) key = true ∧
    GroupKey.equal (s.take keys) key = false

/-- No row has the key of a run that ended before it. -/
def InOrder (keys : Nat) (rows : List Row) : Prop :=
  ∀ before row after, rows = before ++ row :: after → ¬ WasClosed keys before (row.take keys)

theorem not_wasClosed_nil (keys : Nat) (key : GroupKey) : ¬ WasClosed keys [] key := by
  rintro ⟨r, s, hsub, _⟩
  simp at hsub

theorem IsRuns.wasClosed_iff {keys : Nat} {rows : List Row} {closed : List Run} {last : Run}
    (h : IsRuns keys rows (closed ++ [last])) (key : GroupKey) :
    WasClosed keys rows key ↔ ∃ run ∈ closed, GroupKey.equal run.key key = true := by
  have hrows : rows = closed.flatMap Run.rows ++ last.rows := by simp [← h.rows_eq]
  constructor
  · rintro ⟨r, s, hsub, hr, hs⟩
    have hmem : r ∈ closed.flatMap Run.rows := by
      by_contra hout
      have hlast : List.Sublist [r, s] last.rows := by
        rw [hrows, List.sublist_append_iff] at hsub
        obtain ⟨front, back, heq, hfront, hback⟩ := hsub
        cases front with
        | nil => exact heq ▸ hback
        | cons x front =>
            have hx : r = x := (List.cons.inj heq).1
            exact absurd (hx ▸ hfront.subset List.mem_cons_self) hout
      have hkr := h.equal_key last (by simp) r (hlast.subset (by simp))
      have hks := h.equal_key last (by simp) s (hlast.subset (by simp))
      rw [← GroupKey.equal_congr_left hkr] at hr
      rw [← GroupKey.equal_congr_left hks, hr] at hs
      cases hs
    obtain ⟨run, hrun, hrow⟩ := List.mem_flatMap.1 hmem
    have hk := h.equal_key run (List.mem_append_left _ hrun) r hrow
    exact ⟨run, hrun, (GroupKey.equal_congr_left hk key).trans hr⟩
  · rintro ⟨run, hrun, hk⟩
    obtain ⟨front, back, rfl⟩ := List.append_of_mem hrun
    obtain ⟨next, tail, hnext⟩ : ∃ next tail, back ++ [last] = next :: tail := by
      cases back <;> simp
    have hruns : front ++ run :: back ++ [last] = front ++ run :: next :: tail := by
      simp [hnext]
    rw [hruns] at h
    have hdiffer : GroupKey.equal run.key next.key = false := by
      have hd := h.differ.right_of_append
      exact (List.isChain_cons_cons.1 hd).1
    obtain ⟨r, rest, hr, hrkey⟩ := h.key_eq run (by simp)
    obtain ⟨s, rest', hs, hskey⟩ := h.key_eq next (by simp)
    refine ⟨r, s, ?_, hrkey ▸ hk, ?_⟩
    · rw [← h.rows_eq, List.flatMap_append, List.flatMap_cons, List.flatMap_cons, hr, hs]
      apply List.sublist_append_of_sublist_right
      simp
    · rw [← hskey, GroupKey.equal_comm, ← GroupKey.equal_congr_left hk]
      exact hdiffer

theorem inOrder_nil (keys : Nat) : InOrder keys [] := by
  intro before row after h
  simp at h

theorem InOrder.of_append {keys : Nat} {rows more : List Row} (h : InOrder keys (rows ++ more)) :
    InOrder keys rows := by
  intro before row after heq
  exact h before row (after ++ more) (by simp [heq])

theorem inOrder_concat_iff {keys : Nat} {rows : List Row} {row : Row} :
    InOrder keys (rows ++ [row]) ↔ InOrder keys rows ∧ ¬ WasClosed keys rows (row.take keys) := by
  constructor
  · intro h
    exact ⟨h.of_append, h rows row [] rfl⟩
  · rintro ⟨h, hrow⟩ before r after heq
    rcases after.eq_nil_or_concat' with rfl | ⟨after, last, rfl⟩
    · obtain ⟨rfl, hr⟩ := List.append_inj' heq rfl
      cases hr
      exact hrow
    · have heq' : rows ++ [row] = (before ++ r :: after) ++ [last] := by simpa using heq
      exact h before r after (List.append_inj' heq' rfl).1

/-- The first row whose key comes back, in rows that are not in order. -/
theorem exists_first_of_not_inOrder {keys : Nat} {rows : List Row} (h : ¬ InOrder keys rows) :
    ∃ before row after, rows = before ++ row :: after ∧ InOrder keys before ∧
      WasClosed keys before (row.take keys) := by
  induction rows using List.reverseRecOn with
  | nil => exact absurd (inOrder_nil keys) h
  | append_singleton rows row ih =>
      by_cases hrows : InOrder keys rows
      · rw [inOrder_concat_iff, not_and_not_right] at h
        exact ⟨rows, row, [], rfl, hrows, h hrows⟩
      · obtain ⟨before, r, after, rfl, hbefore, hr⟩ := ih hrows
        exact ⟨before, r, after ++ [row], by simp, hbefore, hr⟩

/-- Rows are in order when their runs have different keys. -/
theorem inOrder_iff_pairwise (keys : Nat) (rows : List Row) :
    InOrder keys rows ↔
      (Run.split keys rows).Pairwise fun a b => GroupKey.equal a.key b.key = false := by
  induction rows using List.reverseRecOn with
  | nil => simp [inOrder_nil]
  | append_singleton rows row ih =>
      have hruns := isRuns_split keys rows
      rw [inOrder_concat_iff, ih]
      rcases (Run.split keys rows).eq_nil_or_concat' with hnil | ⟨closed, last, hsplit⟩
      · rw [hnil] at hruns ⊢
        have hrows : rows = [] := by simpa using hruns.rows_eq.symm
        rw [← (hruns.begin row (by simp)).eq_split]
        simp [hrows, not_wasClosed_nil]
      · rw [hsplit] at hruns ⊢
        rw [hruns.wasClosed_iff]
        cases hk : GroupKey.equal last.key (row.take keys) with
        | true =>
            rw [← (hruns.join row hk).eq_split]
            simp only [List.pairwise_append, List.pairwise_singleton, List.mem_singleton,
              forall_eq, true_and, not_exists, not_and, Bool.not_eq_true]
            simp only [← GroupKey.equal_congr_right hk]
            tauto
        | false =>
            rw [← (hruns.begin row (by simpa using hk)).eq_split]
            have hconcat := @List.pairwise_append _ (fun a b : Run => GroupKey.equal a.key b.key = false)
              (closed ++ [last]) [⟨row.take keys, [row]⟩]
            rw [hconcat]
            simp only [List.pairwise_singleton, List.mem_singleton, forall_eq, true_and, not_exists,
              not_and, Bool.not_eq_true, List.mem_append]
            grind

end SqlChain
