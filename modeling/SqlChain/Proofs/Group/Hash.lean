import Mathlib.Algebra.Group.Nat.Defs
import SqlChain.Proofs.Failure
import SqlChain.Proofs.Group.Dispatch

/-!
# Keys that are hashed

The keys of finished runs are kept in a hash set. What a key feeds to the hasher can be read back
from the left: the kind of a value says how it goes on, and a text ends at a byte that no character
has. Keys are therefore equal exactly when they feed the same, and looking a key up by any hash of
what it feeds is comparing it with all keys of the set.
-/

namespace SqlChain

/-- What a hasher is fed: bytes and, for a timestamp, what the clock of universal time shows. -/
inductive HashUnit where
  | byte (value : UInt8)
  | clock (value : Clock)
deriving DecidableEq, Repr

namespace HashUnit

/-- The lowest bytes of a number, the least of them first. -/
def littleEndian : Nat → Nat → List HashUnit
  | 0, _ => []
  | width + 1, n => .byte (UInt8.ofNat n) :: littleEndian width (n / 256)

def word (n : UInt64) : List HashUnit := littleEndian 8 n.toNat

/-- The bytes of a text and one that is part of no text. -/
def characters (s : String) : List HashUnit :=
  (s.toList.flatMap String.utf8EncodeChar).map .byte ++ [.byte 255]

@[simp] theorem length_littleEndian (width n : Nat) : (littleEndian width n).length = width := by
  induction width generalizing n with
  | zero => rfl
  | succ width ih => simp [littleEndian, ih]

theorem littleEndian_injective {width n m : Nat} (hn : n < 256 ^ width) (hm : m < 256 ^ width)
    (h : littleEndian width n = littleEndian width m) : n = m := by
  induction width generalizing n m with
  | zero => rw [Nat.lt_one_iff.1 hn, Nat.lt_one_iff.1 hm]
  | succ width ih =>
      simp only [littleEndian, List.cons.injEq, byte.injEq] at h
      have hlow : n % 256 = m % 256 := by simpa using congrArg UInt8.toNat h.1
      have hpow : 256 ^ (width + 1) = 256 * 256 ^ width := Nat.pow_succ'
      rw [hpow] at hn hm
      have hhigh := ih (Nat.div_lt_of_lt_mul hn) (Nat.div_lt_of_lt_mul hm) h.2
      omega

theorem word_append_inj {n m : UInt64} {rest rest' : List HashUnit}
    (h : word n ++ rest = word m ++ rest') : n = m ∧ rest = rest' := by
  obtain ⟨hword, hrest⟩ := List.append_inj h (by simp [word])
  exact ⟨UInt64.toNat_inj.1 (littleEndian_injective n.toNat_lt m.toNat_lt hword), hrest⟩

theorem ne_255_of_mem_utf8EncodeChar {c : Char} {b : UInt8} (h : b ∈ String.utf8EncodeChar c) :
    b ≠ 255 := by
  rintro rfl
  have hbyte : 255 ∈ (String.utf8EncodeChar c).map UInt8.toNat := List.mem_map_of_mem h
  unfold String.utf8EncodeChar at hbyte
  dsimp only at hbyte
  -- a single byte is below 128, and the first of several is at most 247
  split_ifs at hbyte <;>
    simp only [List.map_cons, List.map_nil, List.mem_cons, List.not_mem_nil, or_false,
      UInt8.toNat_ofNat'] at hbyte <;>
    omega

/-- Lists that end at the first `z`. -/
theorem eq_of_ended {α : Type} [DecidableEq α] {l m rest rest' : List α} {z : α} (hl : z ∉ l)
    (hm : z ∉ m) (h : l ++ z :: rest = m ++ z :: rest') : l = m ∧ rest = rest' := by
  have hlength : l.length = m.length := by
    have hidx := congrArg (List.idxOf z) h
    rwa [List.idxOf_append_of_notMem hl, List.idxOf_append_of_notMem hm, List.idxOf_cons_self,
      List.idxOf_cons_self] at hidx
  obtain ⟨hfront, hback⟩ := List.append_inj h hlength
  exact ⟨hfront, (List.cons.inj hback).2⟩

theorem utf8_injective :
    Function.Injective fun s : String => s.toList.flatMap String.utf8EncodeChar := by
  intro s t h
  have hbytes : s.toByteArray = t.toByteArray := by
    rw [← String.utf8Encode_toList, ← String.utf8Encode_toList, List.utf8Encode, List.utf8Encode]
    exact congrArg List.toByteArray h
  exact String.toByteArray_inj.1 hbytes

theorem characters_append_inj {s t : String} {rest rest' : List HashUnit}
    (h : characters s ++ rest = characters t ++ rest') : s = t ∧ rest = rest' := by
  have hend : ∀ s : String,
      byte 255 ∉ (s.toList.flatMap String.utf8EncodeChar).map HashUnit.byte := by
    intro s hmem
    obtain ⟨b, hb, hbyte⟩ := List.mem_map.1 hmem
    obtain ⟨c, _, hc⟩ := List.mem_flatMap.1 hb
    exact ne_255_of_mem_utf8EncodeChar hc (byte.inj hbyte)
  rw [characters, characters, List.append_assoc, List.append_assoc] at h
  obtain ⟨hbytes, hrest⟩ := eq_of_ended (hend s) (hend t) h
  have hinj : Function.Injective HashUnit.byte := fun _ _ => byte.inj
  exact ⟨utf8_injective (List.map_injective_iff.2 hinj hbytes), hrest⟩

end HashUnit

open HashUnit (word characters word_append_inj characters_append_inj)

namespace Scalar

/-- What is hashed of a value behind its kind. All NaNs feed the same bits, and so do both
zeros. -/
def content : Scalar → List HashUnit
  | .null => []
  | .boolean b => [.byte b.toUInt8]
  | .int64 n => word n.toUInt64
  | .float64 x => word x.canonical.bits
  | .utf8 s => characters s
  | .timestamp t => [.clock t.utc]

def hashed (x : Scalar) : List HashUnit := word (UInt64.ofNat x.ctorIdx) ++ x.content

theorem ctorIdx_canonical (x : Scalar) : x.canonical.ctorIdx = x.ctorIdx := by
  cases x <;> rfl

theorem hashed_canonical (x : Scalar) : x.canonical.hashed = x.hashed := by
  have hidem (x : Binary64) : x.canonical.canonical = x.canonical := by
    cases hn : x.isNaN <;> cases hz : x.isZero <;> simp [Binary64.canonical, hn, hz] <;> decide
  rw [hashed, hashed, ctorIdx_canonical]
  cases x <;> simp [canonical, content, hidem, Timestamp.universal]

theorem content_append_inj {x y : Scalar} (hkind : x.ctorIdx = y.ctorIdx)
    {rest rest' : List HashUnit} (h : x.content ++ rest = y.content ++ rest') :
    x.canonical = y.canonical ∧ rest = rest' := by
  cases x <;> cases y <;> try cases hkind
  case null.null => exact ⟨rfl, h⟩
  case boolean.boolean b c =>
    obtain ⟨hbyte, hrest⟩ := List.cons.inj h
    have hsame : b = c := by cases b <;> cases c <;> first | rfl | cases hbyte
    exact ⟨congrArg Scalar.boolean hsame, hrest⟩
  case int64.int64 n m =>
    obtain ⟨hword, hrest⟩ := word_append_inj h
    exact ⟨congrArg Scalar.int64 (Int64.toBitVec_inj.1 (congrArg UInt64.toBitVec hword)), hrest⟩
  case float64.float64 x y =>
    obtain ⟨hword, hrest⟩ := word_append_inj h
    exact ⟨congrArg (Scalar.float64 ⟨·⟩) hword, hrest⟩
  case utf8.utf8 s t =>
    obtain ⟨hchars, hrest⟩ := characters_append_inj h
    exact ⟨congrArg Scalar.utf8 hchars, hrest⟩
  case timestamp.timestamp s t =>
    obtain ⟨hclock, hrest⟩ := List.cons.inj h
    exact ⟨congrArg Scalar.timestamp (by simpa [Timestamp.universal] using hclock), hrest⟩

/-- What is hashed of a value says which class of equal values it is in, and where it ends. -/
theorem hashed_append_inj {x y : Scalar} {rest rest' : List HashUnit}
    (h : x.hashed ++ rest = y.hashed ++ rest') : x.canonical = y.canonical ∧ rest = rest' := by
  rw [hashed, hashed, List.append_assoc, List.append_assoc] at h
  obtain ⟨hkind, hcontent⟩ := word_append_inj h
  have hsmall (x : Scalar) : x.ctorIdx < UInt64.size := by cases x <;> exact of_decide_eq_true rfl
  exact content_append_inj (by simpa [Nat.mod_eq_of_lt, hsmall] using congrArg UInt64.toNat hkind)
    hcontent

end Scalar

namespace GroupKey

/-- The number of values, and what is hashed of each of them. -/
def hashed (key : GroupKey) : List HashUnit :=
  word (UInt64.ofNat key.length) ++ key.flatMap Scalar.hashed

theorem hashed_canonical (key : GroupKey) : hashed (canonical key) = hashed key := by
  simp [hashed, canonical, List.flatMap_map, Scalar.hashed_canonical]

theorem canonical_eq_of_flatMap {xs ys : GroupKey}
    (h : xs.flatMap Scalar.hashed = ys.flatMap Scalar.hashed) : canonical xs = canonical ys := by
  have hne (x : Scalar) : x.hashed ≠ [] :=
    List.append_ne_nil_of_left_ne_nil (List.ne_nil_of_length_pos (by simp [word])) _
  induction xs generalizing ys with
  | nil =>
      cases ys with
      | nil => rfl
      | cons y ys => simp [hne] at h
  | cons x xs ih =>
      cases ys with
      | nil => simp [hne] at h
      | cons y ys =>
          obtain ⟨hvalue, hrest⟩ := Scalar.hashed_append_inj h
          simpa [canonical, hvalue] using ih hrest

theorem equal_iff_hashed (xs ys : GroupKey) : equal xs ys = true ↔ hashed xs = hashed ys := by
  rw [equal_iff]
  constructor
  · intro h
    rw [← hashed_canonical xs, h, hashed_canonical]
  · exact fun h => canonical_eq_of_flatMap (word_append_inj h).2

theorem equal_iff_forall₂ (xs ys : GroupKey) :
    equal xs ys = true ↔ List.Forall₂ (fun x y => x.keyEqual y = true) xs ys := by
  induction xs generalizing ys with
  | nil => cases ys <;> simp [equal]
  | cons x xs ih => cases ys <;> simp [equal, ih]

theorem equivalence_equal : Equivalence fun xs ys : GroupKey => equal xs ys = true where
  refl := equal_refl
  symm := fun {xs ys} h => (equal_comm ys xs).trans h
  trans := fun {_ _ zs} h h' => (equal_congr_left h zs).trans h'

end GroupKey

theorem Scalar.ctorIdx_eq_of_keyEqual {x y : Scalar} (h : x.keyEqual y = true) :
    x.ctorIdx = y.ctorIdx := by
  rw [← ctorIdx_canonical, (keyEqual_iff x y).1 h, ctorIdx_canonical]

/-! ## The set of finished keys -/

/-- A key that is looked up by this hash of what it feeds. -/
structure HashedKey (hash : List HashUnit → UInt64) where
  key : GroupKey

namespace HashedKey

variable {hash : List HashUnit → UInt64}

instance : BEq (HashedKey hash) := ⟨fun a b => GroupKey.equal a.key b.key⟩

instance : Hashable (HashedKey hash) := ⟨fun a => hash a.key.hashed⟩

instance : EquivBEq (HashedKey hash) where
  rfl := GroupKey.equal_refl _
  symm := GroupKey.equivalence_equal.symm
  trans := GroupKey.equivalence_equal.trans

instance : LawfulHashable (HashedKey hash) where
  hash_eq _ _ h := congrArg hash ((GroupKey.equal_iff_hashed _ _).1 h)

end HashedKey

namespace Carry

/-- The finished keys, put into a hash set in the order in which their runs ended. -/
def finishedSet (hash : List HashUnit → UInt64) (c : Carry) : Std.HashSet (HashedKey hash) :=
  .ofList (c.finished.reverse.map .mk)

theorem contains_finishedSet (hash : List HashUnit → UInt64) (c : Carry) (key : GroupKey) :
    (c.finishedSet hash).contains ⟨key⟩ = c.isFinished key := by
  rw [finishedSet, Std.HashSet.contains_ofList, isFinished, Bool.eq_iff_iff, List.any_eq_true,
    List.contains_eq_any_beq, List.any_eq_true]
  simp only [List.mem_map, List.mem_reverse]
  constructor
  · rintro ⟨_, ⟨other, hmem, rfl⟩, hequal⟩
    exact ⟨other, hmem, hequal⟩
  · rintro ⟨other, hmem, hequal⟩
    exact ⟨⟨other⟩, ⟨other, hmem, rfl⟩, hequal⟩

/-- A row joins the run that is held when it has the same key. -/
theorem pushRow_joins_iff {c : Carry} {run : OpenRun} {row : Row} (hheld : c.held = some run)
    (hwide : c.keys ≤ row.length) :
    (∃ next, c.pushRow row = .ok (none, next)) ↔
      GroupKey.equal run.key (row.take c.keys) = true := by
  have hwide := Nat.not_lt.2 hwide
  cases hequal : GroupKey.equal run.key (row.take c.keys) with
  | true => simp [pushRow, hwide, hheld, hequal]
  | false => cases hfinished : c.isFinished (row.take c.keys) <;>
      simp [pushRow, hwide, hheld, hequal, hfinished]

/-- A row that does not join the run that is held is refused when its key is in the set. -/
theorem pushRow_refuses_iff (hash : List HashUnit → UInt64) {c : Carry} {row : Row}
    (hwide : c.keys ≤ row.length) :
    c.pushRow row = .error (.orderingViolation (row.take c.keys)) ↔
      (c.finishedSet hash).contains ⟨row.take c.keys⟩ = true ∧
        ∀ run, c.held = some run → ¬ GroupKey.equal run.key (row.take c.keys) = true := by
  have hwide := Nat.not_lt.2 hwide
  rw [contains_finishedSet]
  cases hfinished : c.isFinished (row.take c.keys) <;> cases hheld : c.held with
  | none => simp [pushRow, hwide, hheld, hfinished]
  | some run => cases hequal : GroupKey.equal run.key (row.take c.keys) <;>
      simp [pushRow, hwide, hheld, hequal, hfinished]

end Carry

namespace TraversalM

variable {σ ω : Type}

theorem failsWith_callAll (group : Group) (i : Nat) (computations : List (Computation σ ω))
    (t : Traversal σ ω) :
    FailsWith (fun e => ∃ name reason, e = .computation name group.index reason)
      (exec (callAll group i computations) t).1 := by
  induction computations generalizing i t with
  | nil => exact .ok ()
  | cons c rest ih =>
      have hcall := exec_call group i c t
      cases hvalue : (c.run group t.client).value with
      | error reason =>
          simp only [hvalue] at hcall
          rw [callAll, exec_bind_of_error hcall]
          exact .error ⟨_, reason, rfl⟩
      | ok value =>
          simp only [hvalue] at hcall
          rw [callAll, exec_bind_of_ok hcall]
          exact ih _ _

/-- A group is refused for its key when this is not the next label. -/
theorem exec_dispatch_refuses_iff (computations : List (Computation σ ω)) {t : Traversal σ ω}
    {label : Row} {run : Run} (haborted : t.aborted = false)
    (hlabel : t.labels.rows[t.next]? = some label) :
    (exec (dispatch computations run) t).1 = .error (.orderingViolation run.key) ↔
      ¬ GroupKey.equal label run.key = true := by
  cases hequal : GroupKey.equal label run.key with
  | false => simp [dispatch, exec_bind, haborted, hlabel, hequal]
  | true =>
      rw [exec_dispatch_labelled computations run haborted hlabel hequal rfl]
      have hkind := failsWith_callAll ⟨t.next, run.key, ⟨t.columns, run.rows⟩⟩ 0 computations t
      rcases hcalls : exec (callAll ⟨t.next, run.key, ⟨t.columns, run.rows⟩⟩ 0 computations) t with
        ⟨e | _, next⟩
      · rw [exec_bind_of_error hcalls]
        rw [hcalls] at hkind
        obtain ⟨_, _, rfl⟩ := hkind e rfl
        simp
      · rw [exec_bind_of_ok hcalls]
        simp

end TraversalM

/-- Keys are compared alike everywhere: with the keys in the set, whatever their hash is, with the
run that is held and with the next label. -/
theorem GroupKey.equal_lawful {σ ω : Type} (computations : List (Computation σ ω))
    (hash : List HashUnit → UInt64) :
    (Equivalence fun xs ys : GroupKey => equal xs ys = true) ∧
    (∀ xs ys : GroupKey, equal xs ys = true ↔ hashed xs = hashed ys) ∧
    (∀ xs ys : GroupKey, equal xs ys = true ↔
      List.Forall₂ (fun x y => x.keyEqual y = true) xs ys) ∧
    (∀ x y : Scalar, x.keyEqual y = true → x.ctorIdx = y.ctorIdx) ∧
    (∀ (c : Carry) (key : GroupKey), (c.finishedSet hash).contains ⟨key⟩ = true ↔
      ∃ other ∈ c.finished, equal key other = true) ∧
    (∀ (c : Carry) (row : Row), c.keys ≤ row.length →
      (∀ run, c.held = some run → ((∃ next, c.pushRow row = .ok (none, next)) ↔
        equal run.key (row.take c.keys) = true)) ∧
      (c.pushRow row = .error (.orderingViolation (row.take c.keys)) ↔
        (c.finishedSet hash).contains ⟨row.take c.keys⟩ = true ∧
          ∀ run, c.held = some run → ¬ equal run.key (row.take c.keys) = true)) ∧
    (∀ (t : Traversal σ ω) (label : Row) (run : Run), t.aborted = false →
      t.labels.rows[t.next]? = some label →
      ((TraversalM.exec (TraversalM.dispatch computations run) t).1 =
        .error (.orderingViolation run.key) ↔ ¬ equal label run.key = true)) := by
  refine ⟨equivalence_equal, equal_iff_hashed, equal_iff_forall₂,
    fun _ _ => Scalar.ctorIdx_eq_of_keyEqual, fun c key => ?_,
    fun c row hwide => ⟨fun run hheld => ?_, Carry.pushRow_refuses_iff hash hwide⟩,
    fun t label run haborted hlabel => ?_⟩
  · rw [Carry.contains_finishedSet, Carry.isFinished, List.any_eq_true]
  · exact Carry.pushRow_joins_iff hheld hwide
  · exact TraversalM.exec_dispatch_refuses_iff computations haborted hlabel

/-- NaNs and zeros of either sign feed the same, and a negative zero joins the run of zeros. -/
theorem GroupKey.equal_lawful_nan_zero :
    hashed [.float64 (.nan false), .float64 (.zero true)] =
      hashed [.float64 (.nan true), .float64 (.zero false)] ∧
    ∃ next, (⟨1, some (.start [.float64 (.zero false)] []), []⟩ : Carry).pushRow
      [.float64 (.zero true)] = .ok (none, next) := by
  obtain ⟨_, hhashed, _, _, _, hcarry, _⟩ := @GroupKey.equal_lawful Unit Unit [] fun _ => 0
  exact ⟨(hhashed _ _).1 (by decide), ((hcarry ⟨1, some (.start [.float64 (.zero false)] []), []⟩
    [.float64 (.zero true)] (by decide)).1 _ rfl).2 (by decide)⟩

end SqlChain
