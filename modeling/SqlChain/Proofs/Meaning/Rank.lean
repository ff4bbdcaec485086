import Mathlib.Algebra.Ring.Int.Defs
import Mathlib.Data.List.Lex
import Mathlib.Data.List.Sort
import SqlChain.Proofs.Group.Runs
import SqlChain.Proofs.Meaning.Relation

/-!
# Places in an order

A rank is the place of the first of equal values when all values stand in their order, and a dense
rank is the place among the values that differ. Both are one more than a count of the values that
come before (`rank_eq`, `denseRank_eq`).
-/

namespace SqlChain

/-- An order of the values of columns, in which values that are equal as parts of a group key are at
the same place. -/
structure ValueOrder where
  before : Scalar → Scalar → Bool
  trans : ∀ {x y z}, before x y = true → before y z = true → before x z = true
  not_before_of_keyEqual : ∀ {x y}, x.keyEqual y = true → before x y = false
  before_or_before : ∀ {x y}, x.keyEqual y = false → before x y = true ∨ before y x = true

theorem Scalar.keyEqual_refl (x : Scalar) : x.keyEqual x = true := (keyEqual_iff x x).2 rfl

theorem Scalar.keyEqual_comm (x y : Scalar) : x.keyEqual y = y.keyEqual x := by
  rw [Bool.eq_iff_iff, keyEqual_iff, keyEqual_iff, eq_comm]

theorem Scalar.keyEqual_congr_left {x y : Scalar} (h : x.keyEqual y = true) (z : Scalar) :
    x.keyEqual z = y.keyEqual z := by
  rw [Bool.eq_iff_iff, keyEqual_iff, keyEqual_iff, (keyEqual_iff x y).1 h]

theorem Scalar.keyEqual_congr_right {x y : Scalar} (h : x.keyEqual y = true) (z : Scalar) :
    z.keyEqual x = z.keyEqual y := by
  rw [keyEqual_comm z, keyEqual_comm z, keyEqual_congr_left h]

/-! ## An order of all values -/

/-- Values of one kind stand together, in the order of their numbers or characters, or of what the
clock of universal time shows. -/
def Scalar.code : Scalar → List Int
  | .null => [0]
  | .boolean b => [1, b.toNat]
  | .int64 n => [2, n.toInt]
  | .float64 x =>
    let y := x.canonical
    [3, if y.negative then -y.bits.toNat else y.bits.toNat]
  | .utf8 s => 4 :: s.toList.map fun c => (c.toNat : Int)
  | .timestamp t => [5, t.utc.day, t.utc.second, t.utc.nano]

theorem Binary64.signed_inj (x y : Binary64) :
    ((if x.negative then -(x.bits.toNat : Int) else x.bits.toNat) =
      if y.negative then -(y.bits.toNat : Int) else y.bits.toNat) ↔ x = y := by
  have hpos : ∀ {z : Binary64}, z.negative = true → 0 < z.bits.toNat := fun hz =>
    Nat.lt_of_lt_of_le (by decide) (of_decide_eq_true hz)
  refine ⟨fun h => ?_, fun h => by rw [h]⟩
  have hbits : x.bits.toNat = y.bits.toNat := by
    split at h <;> split at h
    · omega
    · next hx _ =>
        have := hpos hx
        omega
    · next _ hy =>
        have := hpos hy
        omega
    · omega
  cases x
  cases y
  exact congrArg mk (UInt64.toNat_inj.1 hbits)

theorem Scalar.code_eq_iff (x y : Scalar) : x.code = y.code ↔ x.keyEqual y = true := by
  rw [keyEqual_iff]
  cases x <;> cases y
  case boolean.boolean b d => cases b <;> cases d <;> simp [code, canonical]
  case int64.int64 m n => simp [code, canonical, Int64.toInt_inj]
  case float64.float64 u v => simp [code, canonical, Binary64.signed_inj]
  case utf8.utf8 s t =>
    have hinj : Function.Injective fun c : Char => (c.toNat : Int) := fun c d h =>
      Char.toNat_inj.1 (Int.ofNat.inj h)
    simp [code, canonical, (List.map_injective_iff.2 hinj).eq_iff, String.toList_inj]
  case timestamp.timestamp s t =>
    obtain ⟨⟨_, _, _, _, _⟩, _, _⟩ := s
    obtain ⟨⟨_, _, _, _, _⟩, _, _⟩ := t
    simp [code, canonical, Timestamp.universal]
  all_goals simp [code, canonical]

def ValueOrder.standard : ValueOrder where
  before x y := decide (x.code < y.code)
  trans hxy hyz := decide_eq_true (lt_trans (of_decide_eq_true hxy) (of_decide_eq_true hyz))
  not_before_of_keyEqual h := by
    rw [← Scalar.code_eq_iff] at h
    simp [h]
  before_or_before {x y} h := by
    have hne : x.code ≠ y.code := by
      intro heq
      rw [Scalar.code_eq_iff, h] at heq
      cases heq
    simpa using lt_or_gt_of_ne hne

/-! ## Values that differ -/

section

variable {α : Type} {key : α → GroupKey}

/-- Choosing elements by their keys and taking the first of every group can be done in any order. -/
theorem filter_representatives {p : α → Bool}
    (hp : ∀ x y, GroupKey.equal (key x) (key y) = true → p x = p y) (xs : List α) :
    (representatives key xs).filter p = representatives key (xs.filter p) := by
  induction xs with
  | nil => rfl
  | cons x xs ih =>
      rw [representatives]
      by_cases hx : p x = true
      · rw [List.filter_cons_of_pos hx, List.filter_cons_of_pos hx, representatives, ← ih,
          List.filter_filter, List.filter_filter]
        congr 1
        exact List.filter_congr fun y _ => Bool.and_comm _ _
      · rw [List.filter_cons_of_neg hx, List.filter_cons_of_neg hx, ← ih, List.filter_filter]
        -- what is chosen is in no group with `x`, since `x` is not chosen
        refine List.filter_congr fun y _ => ?_
        cases hxy : GroupKey.equal (key x) (key y) with
        | false => simp
        | true => simpa [← hp x y hxy] using hx

theorem exists_representative {x : α} {xs : List α} (hx : x ∈ xs) :
    ∃ y ∈ representatives key xs, GroupKey.equal (key y) (key x) = true := by
  induction xs with
  | nil => cases hx
  | cons first rest ih =>
      rw [representatives]
      by_cases hfirst : GroupKey.equal (key first) (key x) = true
      · exact ⟨first, List.mem_cons_self, hfirst⟩
      · rcases List.mem_cons.1 hx with rfl | hx
        · exact absurd (GroupKey.equal_refl _) hfirst
        · obtain ⟨y, hy, hequal⟩ := ih hx
          refine ⟨y, List.mem_cons_of_mem _ (List.mem_filter.2 ⟨hy, ?_⟩), hequal⟩
          rw [GroupKey.equal_congr_right hequal]
          simpa using hfirst

end

def distinctValues (values : List Scalar) : List Scalar := representatives (fun v => [v]) values

theorem equal_singletons (x y : Scalar) : GroupKey.equal [x] [y] = x.keyEqual y := by
  simp [GroupKey.equal]

namespace ValueOrder

variable (O : ValueOrder)

def reverse : ValueOrder where
  before x y := O.before y x
  trans hxy hyz := O.trans hyz hxy
  not_before_of_keyEqual h := by
    rw [Scalar.keyEqual_comm] at h
    exact O.not_before_of_keyEqual h
  before_or_before h := (O.before_or_before h).symm

def directed (descending : Bool) : ValueOrder := if descending then O.reverse else O

def sorted (values : List Scalar) : List Scalar :=
  values.insertionSort fun x y => O.before y x = false

/-- The place of the first value that is equal to this one. -/
def rank (values : List Scalar) (v : Scalar) : Nat := (O.sorted values).findIdx (·.keyEqual v) + 1

/-- The place of the value among those that differ. -/
def denseRank (values : List Scalar) (v : Scalar) : Nat := O.rank (distinctValues values) v

/-! ## Counting -/

variable {O}

theorem before_congr_right {x y z : Scalar} (hxy : O.before x y = true) (hyz : y.keyEqual z = true) :
    O.before x z = true := by
  have hne : x.keyEqual z = false := by
    rw [← Scalar.keyEqual_congr_right hyz]
    by_contra hequal
    rw [O.not_before_of_keyEqual (by simpa using hequal)] at hxy
    cases hxy
  rcases O.before_or_before hne with hxz | hzx
  · exact hxz
  · rw [Scalar.keyEqual_comm] at hyz
    have hzy := O.trans hzx hxy
    rw [O.not_before_of_keyEqual hyz] at hzy
    cases hzy

theorem before_congr_left {x y z : Scalar} (hxy : x.keyEqual y = true) :
    O.before x z = O.before y z := by
  have hreverse : ∀ {x y}, x.keyEqual y = true → O.before x z = true → O.before y z = true :=
    fun hxy hxz => O.reverse.before_congr_right hxz hxy
  rw [Bool.eq_iff_iff]
  exact ⟨hreverse hxy, hreverse (by rwa [Scalar.keyEqual_comm])⟩

theorem not_before_self (x : Scalar) : O.before x x = false :=
  O.not_before_of_keyEqual x.keyEqual_refl

theorem not_before_trans {x y z : Scalar} (hyx : O.before y x = false) (hzy : O.before z y = false) :
    O.before z x = false := by
  by_contra hzx
  have hzx : O.before z x = true := by simpa using hzx
  cases hequal : y.keyEqual z with
  | true =>
      rw [before_congr_left hequal, hzx] at hyx
      cases hyx
  | false =>
      rcases O.before_or_before hequal with hyz | h
      · rw [O.trans hyz hzx] at hyx
        cases hyx
      · rw [h] at hzy
        cases hzy

theorem pairwise_sorted (O : ValueOrder) (values : List Scalar) :
    (O.sorted values).Pairwise fun x y => O.before y x = false := by
  have htrans : IsTrans Scalar fun x y => O.before y x = false :=
    ⟨fun _ _ _ hxy hyz => not_before_trans hxy hyz⟩
  have htotal : Std.Total fun x y => O.before y x = false := by
    refine ⟨fun x y => ?_⟩
    by_contra h
    obtain ⟨hyx, hxy⟩ : O.before y x = true ∧ O.before x y = true := by simpa using h
    have hself := O.trans hxy hyx
    rw [not_before_self] at hself
    cases hself
  exact List.pairwise_insertionSort _ values

/-- Where values stand in their order, those in front of the first that is equal to `v` are those
that come before `v`. -/
theorem findIdx_of_pairwise {values : List Scalar} {v : Scalar}
    (hsorted : values.Pairwise fun x y => O.before y x = false)
    (hv : ∃ x ∈ values, x.keyEqual v = true) :
    values.findIdx (·.keyEqual v) = values.countP (O.before · v) := by
  induction hsorted with
  | nil => simp at hv
  | @cons x rest hx _ ih =>
      rw [List.findIdx_cons, List.countP_cons]
      cases hequal : x.keyEqual v with
      | true =>
          have hnone : rest.countP (O.before · v) = 0 := by
            rw [List.countP_eq_zero]
            intro y hy hyv
            rw [Scalar.keyEqual_comm] at hequal
            have := hx y hy
            rw [O.before_congr_right hyv hequal] at this
            cases this
          rw [hnone, O.not_before_of_keyEqual hequal]
          rfl
      | false =>
          obtain ⟨y, hy, hyv⟩ := hv
          have hy : y ∈ rest := by
            rcases List.mem_cons.1 hy with rfl | hy
            · rw [hequal] at hyv
              cases hyv
            · exact hy
          have hbefore : O.before x v = true := by
            rcases O.before_or_before hequal with hxv | hvx
            · exact hxv
            · have := hx y hy
              rw [before_congr_left hyv, hvx] at this
              cases this
          rw [ih ⟨y, hy, hyv⟩, hbefore]
          rfl

theorem rank_eq {values : List Scalar} {v : Scalar} (hv : ∃ x ∈ values, x.keyEqual v = true) :
    O.rank values v = values.countP (O.before · v) + 1 := by
  have hperm : (O.sorted values).Perm values := List.perm_insertionSort _ values
  have hsorted : ∃ x ∈ O.sorted values, x.keyEqual v = true := by
    obtain ⟨x, hx, hxv⟩ := hv
    exact ⟨x, hperm.mem_iff.2 hx, hxv⟩
  rw [rank, findIdx_of_pairwise (O.pairwise_sorted values) hsorted, hperm.countP_eq]

theorem denseRank_eq {values : List Scalar} {v : Scalar} (hv : ∃ x ∈ values, x.keyEqual v = true) :
    O.denseRank values v = (distinctValues (values.filter (O.before · v))).length + 1 := by
  obtain ⟨x, hx, hxv⟩ := hv
  obtain ⟨y, hy, hyx⟩ : ∃ y ∈ distinctValues values, GroupKey.equal [y] [x] = true :=
    exists_representative hx
  rw [equal_singletons] at hyx
  have hyv : y.keyEqual v = true := by rwa [Scalar.keyEqual_congr_left hyx]
  have hbefore : ∀ x y, GroupKey.equal [x] [y] = true → O.before x v = O.before y v := by
    intro x y hxy
    rw [equal_singletons] at hxy
    exact before_congr_left hxy
  rw [denseRank, O.rank_eq ⟨y, hy, hyv⟩, List.countP_eq_length_filter, distinctValues,
    filter_representatives hbefore]
  rfl

end ValueOrder

end SqlChain
