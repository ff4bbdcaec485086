import Mathlib.Algebra.Group.Nat.Defs
import Mathlib.Algebra.Ring.Int.Defs
import SqlChain.Config

/-!
# Settings under a run of operations

A setting takes a value if there is a form in which it keeps it (`Setting.Keeps`), and reads as that
form from then on. What is written to one setting leaves the others alone, and what is refused
changes nothing, so that valid settings stay valid under every run of operations.
-/

namespace SqlChain

/-! ## Whole numbers -/

namespace Binary64

/-- The mantissa with the sign of the number. -/
def signedMantissa (x : Binary64) : Int := if x.negative then -(x.mantissa : Int) else x.mantissa

/-- A finite number is this integer. The power of two is put on the side on which it is whole. -/
def IsWhole (x : Binary64) (n : Int) : Prop :=
  x.isFinite = true ∧
    x.signedMantissa * (2 ^ x.exponent.toNat : Nat) = n * (2 ^ (-x.exponent).toNat : Nat)

theorem natCast_eq_mul_iff {m p : Nat} (hp : 0 < p) {n : Int} :
    (m : Int) = n * p ↔ m % p = 0 ∧ n = (m / p : Nat) := by
  constructor
  · intro h
    have hdvd : (p : Int) ∣ m := ⟨n, by rw [h, mul_comm]⟩
    refine ⟨Nat.mod_eq_zero_of_dvd (Int.natCast_dvd_natCast.1 hdvd), ?_⟩
    rw [Int.natCast_ediv, h, Int.mul_ediv_cancel _ (by omega)]
  · rintro ⟨hmod, rfl⟩
    exact_mod_cast (Nat.div_mul_cancel (Nat.dvd_of_mod_eq_zero hmod)).symm

theorem isWhole_iff {x : Binary64} {n : Int} :
    x.IsWhole n ↔ x.isFinite = true ∧ x.isIntegral = true ∧ n = x.truncate := by
  refine and_congr_right fun _ => ?_
  simp only [signedMantissa, isIntegral, truncate, Nat.pow_eq]
  by_cases h : 0 ≤ x.exponent
  · have hzero : (-x.exponent).toNat = 0 := by omega
    cases x.negative <;> simp [h, hzero, eq_comm]
  · have hzero : x.exponent.toNat = 0 := by omega
    have hpow : 0 < 2 ^ (-x.exponent).toNat := Nat.two_pow_pos _
    generalize 2 ^ (-x.exponent).toNat = p at hpow ⊢
    simp only [hzero, h, Nat.pow_zero, Nat.cast_one, mul_one, decide_false, Bool.false_or,
      beq_iff_eq, if_false]
    cases x.negative
    · exact natCast_eq_mul_iff hpow
    · simpa [neg_eq_iff_eq_neg] using natCast_eq_mul_iff (n := -n) hpow

/-- The integer that a number is read as, which is the nearest one of 64 bits. -/
theorem toInt64?_eq_some_iff {x : Binary64} {n : Int64} :
    x.toInt64? = some n ↔ ∃ whole, x.IsWhole whole ∧ n = saturate whole := by
  simp only [isWhole_iff, toInt64?, toInt64, Option.ite_none_right_eq_some, Bool.and_eq_true,
    Option.some_inj]
  grind

end Binary64

/-! ## Integers of 64 bits with and without a sign -/

theorem toInt_toInt64 (n : UInt64) :
    n.toInt64.toInt = if 2 * n.toNat < 2 ^ 64 then (n.toNat : Int) else n.toNat - 2 ^ 64 :=
  BitVec.toInt_eq_toNat_cond n.toBitVec

theorem toNat_toUInt64 {n : Int64} (h : 0 ≤ n.toInt) : (n.toUInt64.toNat : Int) = n.toInt := by
  have hn := toInt_toInt64 n.toUInt64
  rw [Int64.toInt64_toUInt64] at hn
  have hlt := n.toUInt64.toNat_lt
  split_ifs at hn <;> omega

namespace Scalar

theorem asBool_eq_ok_iff {v : Scalar} {b : Bool} :
    v.asBool = .ok b ↔ v = .boolean b ∨ v = .int64 (if b then 1 else 0) := by
  cases v with
  | boolean c => simp [asBool]
  | int64 n =>
      simp only [asBool]
      split_ifs <;> simp_all
  | _ => simp [asBool]

theorem asInt64_eq_ok_iff {v : Scalar} {n : Int64} :
    v.asInt64 = .ok n ↔ v = .int64 n ∨ ∃ x whole, v = .float64 x ∧ x.IsWhole whole ∧
      n = saturate whole := by
  cases v with
  | int64 m => simp [asInt64]
  | float64 x =>
      have hx : (Scalar.float64 x).asInt64 = .ok n ↔ x.toInt64? = some n := by
        rw [asInt64]
        cases x.toInt64? <;> simp
      simp [hx, Binary64.toInt64?_eq_some_iff]
  | _ => simp [asInt64]

theorem asNatural_eq_ok_iff {v : Scalar} {n : UInt64} :
    v.asNatural = .ok n ↔ ∃ m : Int64, v.asInt64 = .ok m ∧ 0 ≤ m.toInt ∧ n = m.toUInt64 := by
  rw [asNatural]
  cases v.asInt64 with
  | error e => simp [bind, Except.bind]
  | ok m =>
      have hsign : m < 0 ↔ ¬ 0 ≤ m.toInt := by
        rw [Int64.lt_iff_toInt_lt, Int64.toInt_zero, Int.not_le]
      by_cases h : 0 ≤ m.toInt <;> simp [bind, Except.bind, hsign, h, eq_comm]

end Scalar

/-! ## One setting -/

namespace Setting

/-- The form in which a setting keeps a value that it takes. -/
inductive Keeps : Setting → Scalar → Scalar → Prop
  | boolean {s : Setting} (hs : s ≠ .chunkSize) (b : Bool) : Keeps s (.boolean b) (.boolean b)
  | bit {s : Setting} (hs : s ≠ .chunkSize) (b : Bool) :
      Keeps s (.int64 (if b then 1 else 0)) (.boolean b)
  | size {n : Int64} (hfrom : 1 ≤ n.toInt) (hto : n.toInt ≤ 1000000) :
      Keeps .chunkSize (.int64 n) (.int64 n)
  | wholeSize {x : Binary64} {n : Int64} (hx : x.IsWhole n.toInt) (hfrom : 1 ≤ n.toInt)
      (hto : n.toInt ≤ 1000000) : Keeps .chunkSize (.float64 x) (.int64 n)

theorem exists_int64_of_keeps {v w : Scalar} (h : Keeps .chunkSize v w) : ∃ n, w = .int64 n := by
  cases h with
  | boolean hs | bit hs => exact absurd rfl hs
  | @size n | @wholeSize _ n => exact ⟨n, rfl⟩

theorem exists_boolean_of_keeps {s : Setting} (hs : s ≠ .chunkSize) {v w : Scalar}
    (h : s.Keeps v w) : ∃ b, w = .boolean b := by
  cases h with
  | boolean _ b | bit _ b => exact ⟨b, rfl⟩
  | size | wholeSize => exact absurd rfl hs

theorem keeps_chunkSize_iff {v : Scalar} {n : Int64} :
    Keeps .chunkSize v (.int64 n) ↔
      v.asInt64 = .ok n ∧ 1 ≤ n.toInt ∧ n.toInt ≤ 1000000 := by
  have hmin : Int64.minValue.toInt = -9223372036854775808 := rfl
  have hmax : Int64.maxValue.toInt = 9223372036854775807 := rfl
  rw [Scalar.asInt64_eq_ok_iff]
  constructor
  · rintro (_ | _ | ⟨hfrom, hto⟩ | ⟨hx, hfrom, hto⟩)
    · exact ⟨.inl rfl, hfrom, hto⟩
    · exact ⟨.inr ⟨_, _, rfl, hx, (saturate_toInt n).symm⟩, hfrom, hto⟩
  · rintro ⟨rfl | ⟨x, whole, rfl, hx, hn⟩, hfrom, hto⟩
    · exact .size hfrom hto
    · -- a number that was cut off at the end of the range would be out of these bounds
      have hwhole : n.toInt = whole := by
        rw [hn, toInt_saturate] at hfrom hto ⊢
        omega
      exact .wholeSize (hwhole ▸ hx) hfrom hto

theorem keeps_boolean_iff {s : Setting} (hs : s ≠ .chunkSize) {v : Scalar} {b : Bool} :
    s.Keeps v (.boolean b) ↔ v.asBool = .ok b := by
  rw [Scalar.asBool_eq_ok_iff]
  constructor
  · rintro (_ | _)
    · exact .inl rfl
    · exact .inr rfl
  · rintro (rfl | rfl)
    · exact .boolean hs b
    · exact .bit hs b

theorem keeps_unique {s : Setting} {v w w' : Scalar} (h : s.Keeps v w) (h' : s.Keeps v w') :
    w = w' := by
  cases s with
  | chunkSize =>
      obtain ⟨n, rfl⟩ := exists_int64_of_keeps h
      obtain ⟨n', rfl⟩ := exists_int64_of_keeps h'
      have hn := (keeps_chunkSize_iff.1 h).1
      rw [(keeps_chunkSize_iff.1 h').1] at hn
      cases hn
      rfl
  | strictNumeric | strictSql =>
      obtain ⟨b, rfl⟩ := exists_boolean_of_keeps (by decide) h
      obtain ⟨b', rfl⟩ := exists_boolean_of_keeps (by decide) h'
      have hb := (keeps_boolean_iff (by decide)).1 h
      rw [(keeps_boolean_iff (by decide)).1 h'] at hb
      cases hb
      rfl

theorem ofName?_eq_some_iff {name : String} {s : Setting} :
    ofName? name = some s ↔ s.name = name := by
  constructor
  · intro h
    have hname := List.find?_some h
    simpa using hname
  · rintro rfl
    exact ofName?_name s

theorem name_injective : Function.Injective name := by
  intro s t h
  rw [← Option.some_inj, ← ofName?_name s, h, ofName?_name]

theorem ofName_name (s : Setting) : ofName s.name = .ok s := by rw [ofName, ofName?_name]

/-- A name is that of a setting, or an unknown one. -/
theorem ofName_cases (name : String) :
    (∃ s : Setting, s.name = name ∧ ofName name = .ok s) ∨
      (∀ s : Setting, s.name ≠ name) ∧
        ofName name = .error (.invalidSetting (.unknownSetting name)) := by
  cases hname : ofName? name with
  | some s => exact .inl ⟨s, ofName?_eq_some_iff.1 hname, by rw [ofName, hname]⟩
  | none =>
      refine .inr ⟨fun s hs => ?_, by rw [ofName, hname]⟩
      rw [ofName?_eq_some_iff.2 hs] at hname
      cases hname

end Setting

namespace Config

theorem checkChunkSize_eq_ok_iff {n : UInt64} :
    checkChunkSize n = .ok () ↔ 1 ≤ n.toNat ∧ n.toNat ≤ 1000000 := by
  rw [checkChunkSize, leastChunkSize, mostChunkSize]
  split_ifs <;> simp <;> omega

theorem validate_eq_ok_iff {c : Config} :
    c.validate = .ok () ↔ 1 ≤ c.chunkSize.toNat ∧ c.chunkSize.toNat ≤ 1000000 :=
  checkChunkSize_eq_ok_iff

/-- Settings that read alike are alike. -/
theorem ext_read {c d : Config} (h : ∀ s, c.read s = d.read s) : c = d := by
  have hsize := h .chunkSize
  have hsql := h .strictSql
  have hnumeric := h .strictNumeric
  simp only [read, Scalar.int64.injEq, Scalar.boolean.injEq] at hsize hsql hnumeric
  have hchunk : c.chunkSize = d.chunkSize := by
    rw [← c.chunkSize.toUInt64_toInt64, hsize, UInt64.toUInt64_toInt64]
  cases c
  cases d
  simp_all

variable {c d : Config} {v w : Scalar} {s : Setting}

/-- What is refused is stored nowhere. -/
theorem eq_of_write_error {e : Error} (h : c.write v s = (d, .error e)) : d = c := by
  cases s with
  | chunkSize =>
      cases hn : v.asNatural with
      | error e' => simp_all [write]
      | ok n => cases hcheck : checkChunkSize n <;> simp_all [write]
  | strictNumeric | strictSql => cases hb : v.asBool <;> simp_all [write]

theorem write_chunkSize_eq_ok_iff :
    c.write v .chunkSize = (d, .ok ()) ↔ ∃ n : Int64, Setting.chunkSize.Keeps v (.int64 n) ∧
      d = { c with chunkSize := n.toUInt64 } := by
  have hwrite : c.write v .chunkSize = (d, .ok ()) ↔
      ∃ n, v.asNatural = .ok n ∧ checkChunkSize n = .ok () ∧ d = { c with chunkSize := n } := by
    cases hn : v.asNatural with
    | error e => simp [write, hn]
    | ok n => cases hcheck : checkChunkSize n <;> simp [write, hn, hcheck, eq_comm]
  simp only [hwrite, Scalar.asNatural_eq_ok_iff, checkChunkSize_eq_ok_iff,
    Setting.keeps_chunkSize_iff]
  constructor
  · rintro ⟨_, ⟨n, hn, hpos, rfl⟩, ⟨hfrom, hto⟩, rfl⟩
    have hnat := toNat_toUInt64 hpos
    exact ⟨n, ⟨hn, by omega, by omega⟩, rfl⟩
  · rintro ⟨n, ⟨hn, hfrom, hto⟩, rfl⟩
    have hpos : 0 ≤ n.toInt := by omega
    have hnat := toNat_toUInt64 hpos
    exact ⟨_, ⟨n, hn, hpos, rfl⟩, ⟨by omega, by omega⟩, rfl⟩

/-- A value that has a form for a setting is written in this form, and nothing else is. -/
theorem write_of_keeps (c : Config) (h : s.Keeps v w) :
    ∃ d, c.write v s = (d, .ok ()) ∧ d.read s = w ∧ ∀ t ≠ s, d.read t = c.read t := by
  cases s with
  | chunkSize =>
      obtain ⟨n, rfl⟩ := Setting.exists_int64_of_keeps h
      refine ⟨_, write_chunkSize_eq_ok_iff.2 ⟨n, h, rfl⟩, by simp [read], fun t ht => ?_⟩
      cases t <;> simp_all [read]
  | strictNumeric | strictSql =>
      obtain ⟨b, rfl⟩ := Setting.exists_boolean_of_keeps (by decide) h
      have hv := (Setting.keeps_boolean_iff (by decide)).1 h
      refine ⟨_, by rw [write, hv], rfl, fun t ht => ?_⟩
      cases t <;> simp_all [read]

theorem keeps_of_write (h : c.write v s = (d, .ok ())) : ∃ w, s.Keeps v w := by
  cases s with
  | chunkSize =>
      obtain ⟨n, hn, _⟩ := write_chunkSize_eq_ok_iff.1 h
      exact ⟨_, hn⟩
  | strictNumeric | strictSql =>
      cases hb : v.asBool with
      | error e => simp [write, hb] at h
      | ok b => exact ⟨.boolean b, (Setting.keeps_boolean_iff (by decide)).2 hb⟩

/-- Only a chunk size within the bounds is stored. -/
theorem validate_write (hc : c.validate = .ok ()) (v : Scalar) (s : Setting) :
    (c.write v s).1.validate = .ok () := by
  rcases hwrite : c.write v s with ⟨d, e | ⟨⟩⟩
  · rwa [eq_of_write_error hwrite]
  cases s with
  | chunkSize =>
      obtain ⟨n, hn, rfl⟩ := write_chunkSize_eq_ok_iff.1 hwrite
      obtain ⟨_, hfrom, hto⟩ := Setting.keeps_chunkSize_iff.1 hn
      have hnat := toNat_toUInt64 (n := n) (by omega)
      rw [validate_eq_ok_iff]
      dsimp only
      omega
  | strictNumeric | strictSql =>
      cases hb : v.asBool with
      | error e => simp [write, hb] at hwrite
      | ok b =>
          simp only [write, hb] at hwrite
          cases hwrite
          exact hc

/-- What a valid setting reads as is a form in which it is kept. -/
theorem keeps_read (hc : c.validate = .ok ()) (s : Setting) : s.Keeps (c.read s) (c.read s) := by
  cases s with
  | chunkSize =>
      obtain ⟨hfrom, hto⟩ := validate_eq_ok_iff.1 hc
      have hint := toInt_toInt64 c.chunkSize
      rw [if_pos (by omega)] at hint
      exact .size (by omega) (by omega)
  | strictNumeric | strictSql => exact .boolean (by decide) _

/-- A number without a sign is not taken if it comes to be within the bounds only by being cut down
to 64 bits with a sign. -/
theorem write_toInt64_eq_ok_iff {n : UInt64} :
    c.write (.int64 n.toInt64) .chunkSize = (d, .ok ()) ↔
      (1 ≤ n.toNat ∧ n.toNat ≤ 1000000) ∧ d = { c with chunkSize := n } := by
  have hint := toInt_toInt64 n
  have hlt := n.toNat_lt
  have hbounds : (1 ≤ n.toInt64.toInt ∧ n.toInt64.toInt ≤ 1000000) ↔
      1 ≤ n.toNat ∧ n.toNat ≤ 1000000 := by
    split_ifs at hint <;> omega
  simp only [write_chunkSize_eq_ok_iff, Setting.keeps_chunkSize_iff, Scalar.asInt64,
    Except.ok.injEq]
  constructor
  · rintro ⟨_, ⟨rfl, h⟩, rfl⟩
    exact ⟨hbounds.1 h, by rw [UInt64.toUInt64_toInt64]⟩
  · rintro ⟨h, rfl⟩
    exact ⟨_, ⟨rfl, hbounds.2 h⟩, by rw [UInt64.toUInt64_toInt64]⟩

end Config

/-! ## Operations -/

/-- What flags do to settings. The strict settings are turned on even if the chunk size is refused,
which then stays as it was. -/
structure Flags.Applied (flags : Flags) (c : Config) (after : Config × Except Error Unit) :
    Prop where
  done_iff : after.2 = .ok () ↔
    ∀ n, flags.chunkSize = some n → 1 ≤ n.toNat ∧ n.toNat ≤ 1000000
  chunkSize_of_done : after.2 = .ok () → after.1.chunkSize = flags.chunkSize.getD c.chunkSize
  chunkSize_of_refused : after.2 ≠ .ok () → after.1.chunkSize = c.chunkSize
  strictSql : after.1.strictSql = (flags.strictness.sql || c.strictSql)
  strictNumeric : after.1.strictNumeric = (flags.strictness.numeric || c.strictNumeric)

theorem Flags.applied (flags : Flags) (c : Config) : flags.Applied c (flags.apply c) := by
  rcases flags with ⟨strictness, _ | n⟩
  · exact ⟨by simp [apply], fun _ => rfl, fun _ => rfl, rfl, rfl⟩
  have hset : Flags.apply ⟨strictness, some n⟩ c =
      (strictness.apply c).write (.int64 n.toInt64) .chunkSize := rfl
  rw [hset]
  rcases hwrite : (strictness.apply c).write (.int64 n.toInt64) .chunkSize with ⟨d, e | ⟨⟩⟩
  · have hn : ¬ (1 ≤ n.toNat ∧ n.toNat ≤ 1000000) := fun hn => by
      cases hwrite.symm.trans (Config.write_toInt64_eq_ok_iff.2 ⟨hn, rfl⟩)
    cases Config.eq_of_write_error hwrite
    exact ⟨by simpa using hn, fun h => (by cases h), fun _ => rfl, rfl, rfl⟩
  · obtain ⟨hn, rfl⟩ := Config.write_toInt64_eq_ok_iff.1 hwrite
    exact ⟨by simpa using hn, fun _ => rfl, fun h => absurd rfl h, rfl, rfl⟩

theorem Flags.Applied.validate {flags : Flags} {c : Config} {after : Config × Except Error Unit}
    (h : flags.Applied c after) (hc : c.validate = .ok ()) : after.1.validate = .ok () := by
  rw [Config.validate_eq_ok_iff] at hc ⊢
  by_cases hdone : after.2 = .ok ()
  · rw [h.chunkSize_of_done hdone]
    cases hsize : flags.chunkSize with
    | none => exact hc
    | some n => exact h.done_iff.1 hdone n hsize
  · rwa [h.chunkSize_of_refused hdone]

namespace Config

variable {c d : Config} {v w : Scalar}

/-- What can be done to settings. -/
inductive Operation where
  | set (name : String) (value : Scalar)
  | reset (name : String)
  | resetAll
  | apply (flags : Flags)

/-- The settings after an operation, and whether it was done. -/
def perform (c : Config) : Operation → Config × Except Error Unit
  | .set name value => c.set name value
  | .reset name => c.reset name
  | .resetAll => (default, .ok ())
  | .apply flags => flags.apply c

/-- The settings after these operations, done or not. -/
def performAll (c : Config) (ops : List Operation) : Config :=
  ops.foldl (fun c op => (c.perform op).1) c

/-- Either the setting of this name takes one of these forms and all others stay, or there is no
such form and all settings stay. -/
inductive Changes (c : Config) (name : String) (Becomes : Setting → Scalar → Prop) :
    Config × Except Error Unit → Prop
  | done {d : Config} {s : Setting} {w : Scalar} (hname : s.name = name) (hw : Becomes s w)
      (hget : d.get name = .ok w) (hothers : ∀ other ≠ name, d.get other = c.get other) :
      Changes c name Becomes (d, .ok ())
  | refused {e : Error} (h : ∀ s w, s.name = name → ¬ Becomes s w) :
      Changes c name Becomes (c, .error e)

theorem get_name (c : Config) (s : Setting) : c.get s.name = .ok (c.read s) := by
  rw [get, Setting.ofName_name]
  rfl

theorem get_congr {name : String} (h : ∀ s : Setting, s.name = name → c.read s = d.read s) :
    c.get name = d.get name := by
  rcases Setting.ofName_cases name with ⟨s, rfl, -⟩ | ⟨-, herror⟩
  · rw [get_name, get_name, h s rfl]
  · rw [get, get, herror]
    rfl

theorem writeNamed_name (c : Config) (s : Setting) (value : Setting → Scalar) :
    c.writeNamed s.name value = c.write (value s) s := by rw [writeNamed, Setting.ofName_name]

/-- A setting is written by its name. -/
theorem changes_writeNamed (c : Config) (name : String) (value : Setting → Scalar) :
    c.Changes name (fun s w => s.Keeps (value s) w) (c.writeNamed name value) := by
  rcases Setting.ofName_cases name with ⟨s, rfl, -⟩ | ⟨hnone, herror⟩
  · rw [writeNamed_name]
    rcases hwrite : c.write (value s) s with ⟨d, e | ⟨⟩⟩
    · rw [eq_of_write_error hwrite]
      refine .refused fun t w ht hw => ?_
      obtain ⟨_, hdone, -⟩ := c.write_of_keeps (Setting.name_injective ht ▸ hw)
      cases hwrite.symm.trans hdone
    · obtain ⟨w, hw⟩ := keeps_of_write hwrite
      obtain ⟨d', hd, hread, hothers⟩ := c.write_of_keeps hw
      cases hwrite.symm.trans hd
      refine .done rfl hw (hread ▸ d.get_name s) fun other hother => ?_
      exact get_congr fun t ht => hothers t fun hts => hother (by rw [← ht, hts])
  · rw [writeNamed, herror]
    exact .refused fun s _ hs => absurd hs (hnone s)

theorem changes_reset (c : Config) (name : String) :
    c.Changes name (fun s w => w = default.read s) (c.perform (.reset name)) := by
  have hforms : ∀ (s : Setting) (w : Scalar), s.Keeps (default.read s) w ↔ w = default.read s := by
    have hdefault (s : Setting) := keeps_read (c := default) rfl s
    exact fun s w => ⟨fun h => s.keeps_unique h (hdefault s), fun h => h ▸ hdefault s⟩
  simp only [← hforms]
  exact c.changes_writeNamed name default.read

/-- Writing what was read changes nothing. -/
theorem perform_set_of_get (hc : c.validate = .ok ()) {name : String} (h : c.get name = .ok v) :
    c.perform (.set name v) = (c, .ok ()) := by
  rcases Setting.ofName_cases name with ⟨s, rfl, -⟩ | ⟨-, herror⟩
  · rw [get_name] at h
    cases h
    obtain ⟨d, hd, hread, hothers⟩ := c.write_of_keeps (keeps_read hc s)
    have hsame : d = c := ext_read fun t => by
      by_cases ht : t = s
      · rw [ht, hread]
      · exact hothers t ht
    rw [perform, set, writeNamed_name, hd, hsame]
  · rw [get, herror] at h
    cases h

theorem validate_writeNamed (hc : c.validate = .ok ()) (name : String) (value : Setting → Scalar) :
    (c.writeNamed name value).1.validate = .ok () := by
  rcases Setting.ofName_cases name with ⟨s, rfl, -⟩ | ⟨-, herror⟩
  · rw [writeNamed_name]
    exact validate_write hc (value s) s
  · rwa [writeNamed, herror]

theorem validate_perform (hc : c.validate = .ok ()) (op : Operation) :
    (c.perform op).1.validate = .ok () := by
  cases op with
  | set name value => exact validate_writeNamed hc name fun _ => value
  | reset name => exact validate_writeNamed hc name default.read
  | resetAll => rfl
  | apply flags => exact (flags.applied c).validate hc

theorem validate_performAll (hc : c.validate = .ok ()) (ops : List Operation) :
    (c.performAll ops).validate = .ok () := by
  induction ops generalizing c with
  | nil => exact hc
  | cons op ops ih => exact ih (validate_perform hc op)

/-- Valid settings stay valid under every run of operations. Wherever a run leads to, a setting that
is written or reset takes a form of the value and leaves the others alone, unless there is no such
form and nothing changes. Writing what was read changes nothing. Flags turn strict settings on and
store the chunk size that they give, if it is within the bounds. -/
theorem performAll_settings {c : Config} (h : c.validate = .ok ()) (ops : List Operation) :
    let d := c.performAll ops
    d.validate = .ok () ∧
    (∀ name value, d.Changes name (fun s w => s.Keeps value w) (d.perform (.set name value))) ∧
    (∀ name, d.Changes name (fun s w => w = default.read s) (d.perform (.reset name))) ∧
    (∀ name value, d.get name = .ok value → d.perform (.set name value) = (d, .ok ())) ∧
    ∀ flags : Flags, flags.Applied d (d.perform (.apply flags)) := by
  intro d
  have hd : d.validate = .ok () := validate_performAll h ops
  exact ⟨hd, fun name value => d.changes_writeNamed name fun _ => value, d.changes_reset,
    fun _ _ => perform_set_of_get hd, fun flags => flags.applied d⟩

/-- Two thousand as a float is taken, and a chunk size just above all numbers with a sign is not. -/
theorem performAll_settings_refusedFlags :
    let whole : Scalar := .float64 ⟨0x409f400000000000⟩
    let beyond : Flags := ⟨⟨true, false⟩, some 9223372036854775809⟩
    let c := default.performAll [.set "chunk_size" whole, .reset "page_size", .apply beyond]
    default.validate = .ok () ∧ c = ⟨2000, true, false⟩ ∧
      c.Changes "chunk_size" (fun s w => s.Keeps (.int64 0) w)
        (c.perform (.set "chunk_size" (.int64 0))) ∧
      c.perform (.set "chunk_size" (.int64 2000)) = (c, .ok ()) ∧
      beyond.Applied c (c.perform (.apply beyond)) ∧ (c.perform (.apply beyond)).2 ≠ .ok () := by
  intro whole beyond c
  have hc : c = ⟨2000, true, false⟩ := by decide +kernel
  obtain ⟨_, hset, _, hread, hflags⟩ :=
    performAll_settings (c := default) rfl [.set "chunk_size" whole, .reset "page_size", .apply beyond]
  refine ⟨rfl, hc, hset _ _, hread _ _ ?_, hflags beyond, fun hdone => ?_⟩
  · change c.get "chunk_size" = .ok (.int64 2000)
    rw [hc]
    rfl
  · have hbounds := (hflags beyond).done_iff.1 hdone _ rfl
    exact absurd hbounds.2 (by decide)

end Config

end SqlChain
