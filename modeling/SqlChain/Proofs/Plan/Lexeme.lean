import Mathlib.Tactic.IntervalCases
import SqlChain.Json.Printer
import SqlChain.Json.Reader
import SqlChain.Proofs.Digits

/-!
# Numbers and strings that are read back

What is read behind the text of a number does not matter as long as it does not go on with the
number, and the text of a string is closed by its quote. Integers of 64 bits and all strings are
what their texts are read as; of a float that is asked.
-/

namespace SqlChain

open Binary64 (EndsDigits endsDigits_cons endsDigits_nil spanDigits spanSign)

/-! ## Numbers -/

namespace Binary64

theorem spanDigits_append_of_ends (cs : List Char) {rest : List Char} (h : EndsDigits rest) :
    spanDigits (cs ++ rest) = ((spanDigits cs).1, (spanDigits cs).2 ++ rest) := by
  induction cs with
  | nil =>
    have hspan : spanDigits ([] ++ rest) = ([], rest) := spanDigits_digits (by simp) h
    simpa [spanDigits] using hspan
  | cons c cs ih =>
    by_cases hc : c.isDigit = true
    · simp only [spanDigits, List.cons_append, List.takeWhile_cons, List.dropWhile_cons, hc,
        if_true, Prod.mk.injEq, List.cons.injEq, true_and] at ih ⊢
      exact ih
    · simp [spanDigits, hc]

end Binary64

namespace JsonNumber

/-- Nothing stands in front that would go on with a number. -/
def EndsNumber (cs : List Char) : Prop :=
  ∀ c ∈ cs.head?, c.isDigit = false ∧ c ≠ '.' ∧ c ≠ 'e' ∧ c ≠ 'E'

theorem EndsNumber.endsDigits {cs : List Char} (h : EndsNumber cs) : EndsDigits cs :=
  fun c hc => (h c hc).1

theorem whole?_append {cs ds r rest : List Char} (h : whole? cs = some (ds, r))
    (hrest : EndsNumber rest) : whole? (cs ++ rest) = some (ds, r ++ rest) := by
  unfold whole? at h ⊢
  rw [Binary64.spanDigits_append_of_ends cs hrest.endsDigits]
  split at h
  · rename_i heq
    cases h
    simp [heq]
  · cases h
  · cases h
  · rename_i hzero hlead hnil heq
    cases h
    rw [heq]
    split
    · rename_i heq'
      cases heq'
      exact (hzero rfl).elim
    · rename_i heq'
      cases heq'
      exact (hlead _ rfl).elim
    · rename_i heq'
      cases heq'
      exact (hnil rfl).elim
    · rename_i heq'
      cases heq'
      rfl

theorem places?_append {cs r rest : List Char} {places : Option (List Char)}
    (h : places? cs = some (places, r)) (hrest : EndsNumber rest) :
    places? (cs ++ rest) = some (places, r ++ rest) := by
  cases cs with
  | nil =>
    cases h
    cases rest with
    | nil => rfl
    | cons c cs =>
      have hc := (hrest c rfl).2.1
      simp only [List.nil_append]
      unfold places?
      split
      · rename_i heq
        cases heq
        exact absurd rfl hc
      · rfl
  | cons c cs =>
    by_cases hc : c = '.'
    · subst hc
      simp only [places?, List.cons_append] at h ⊢
      rw [Binary64.spanDigits_append_of_ends cs hrest.endsDigits]
      generalize spanDigits cs = span at h ⊢
      obtain ⟨ds, left⟩ := span
      cases ds with
      | nil => cases h
      | cons d ds =>
        cases h
        rfl
    · have hplain (xs : List Char) : places? (c :: xs) = some (none, c :: xs) := by
        unfold places?
        split
        · rename_i heq
          cases heq
          exact absurd rfl hc
        · rfl
      rw [hplain] at h
      cases h
      exact hplain (cs ++ rest)

theorem exponent?_append {cs r rest : List Char} {e : Option Int}
    (h : exponent? cs = some (e, r)) (hrest : EndsNumber rest) :
    exponent? (cs ++ rest) = some (e, r ++ rest) := by
  cases cs with
  | nil =>
    cases h
    cases rest with
    | nil => rfl
    | cons c cs =>
      have hc := (hrest c rfl).2.2
      simp [exponent?, hc.1, hc.2]
  | cons c cs =>
    by_cases hc : c = 'e' ∨ c = 'E'
    · simp only [exponent?, hc, if_true, List.cons_append] at h ⊢
      cases cs with
      | nil => cases h
      | cons d ds =>
        have hsign : spanSign (d :: ds ++ rest) =
            ((spanSign (d :: ds)).1, (spanSign (d :: ds)).2 ++ rest) := by
          unfold spanSign
          split <;> simp_all
        rw [hsign, Binary64.spanDigits_append_of_ends _ hrest.endsDigits]
        simp only at h ⊢
        generalize spanDigits (spanSign (d :: ds)).2 = span at h ⊢
        obtain ⟨found, left⟩ := span
        cases found with
        | nil => cases h
        | cons x xs =>
          cases h
          rfl
    · simp only [exponent?, hc, if_false, List.cons_append] at h ⊢
      cases h
      rfl

/-- Reading behind the sign. -/
def unsigned? (negative : Bool) (cs : List Char) : Option (Option JsonNumber × List Char) := do
  let (whole, cs) ← whole? cs
  let (places, cs) ← places? cs
  let (e, cs) ← exponent? cs
  match places, e with
  | none, none => return (ofWhole negative whole, cs)
  | places, e =>
    return ((ofDigits negative whole (places.getD []) (e.getD 0)).map .float, cs)

theorem read?_minus (cs : List Char) : read? ('-' :: cs) = unsigned? true cs := rfl

theorem read?_unsigned {c : Char} (h : c ≠ '-') (cs : List Char) :
    read? (c :: cs) = unsigned? false (c :: cs) := by
  unfold read?
  split
  rename_i negative left heq
  split at heq
  · rename_i hminus
    cases hminus
    exact absurd rfl h
  · cases heq
    rfl

theorem unsigned?_append {negative : Bool} {cs rest : List Char} {n : Option JsonNumber}
    (h : unsigned? negative cs = some (n, [])) (hrest : EndsNumber rest) :
    unsigned? negative (cs ++ rest) = some (n, rest) := by
  simp only [unsigned?, Option.bind_eq_bind, Option.bind_eq_some_iff, Prod.exists] at h ⊢
  obtain ⟨whole, behindWhole, hwhole, places, behindPlaces, hplaces, e, left, he, h⟩ := h
  have hleft : left = [] := by
    split at h <;> cases h <;> rfl
  subst hleft
  refine ⟨whole, _, whole?_append hwhole hrest, places, _, places?_append hplaces hrest, e, _,
    exponent?_append he hrest, ?_⟩
  rw [List.nil_append]
  split at h <;> cases h <;> rfl

/-- The number is what its text is read as. -/
def Survives (n : JsonNumber) : Prop := read? n.text.toList = some (some n, [])

instance (n : JsonNumber) : Decidable n.Survives := inferInstanceAs (Decidable (_ = _))

theorem unsigned?_head {negative : Bool} {c : Char} {cs : List Char}
    {found : Option JsonNumber × List Char} (h : unsigned? negative (c :: cs) = some found) :
    c.isDigit = true := by
  cases hc : c.isDigit with
  | true => rfl
  | false =>
    have hwhole : whole? (c :: cs) = none := by simp [whole?, spanDigits, hc]
    simp [unsigned?, hwhole] at h

theorem Survives.head {n : JsonNumber} (h : n.Survives) :
    ∃ c cs, n.text.toList = c :: cs ∧ (c = '-' ∨ c.isDigit = true) := by
  unfold Survives at h
  cases htext : n.text.toList with
  | nil =>
    rw [htext] at h
    cases h
  | cons c cs =>
    refine ⟨c, cs, rfl, ?_⟩
    by_cases hc : c = '-'
    · exact .inl hc
    · rw [htext, read?_unsigned hc] at h
      exact .inr (unsigned?_head h)

theorem Survives.append {n : JsonNumber} (h : n.Survives) {rest : List Char}
    (hrest : EndsNumber rest) : read? (n.text.toList ++ rest) = some (some n, rest) := by
  obtain ⟨c, cs, htext, -⟩ := h.head
  unfold Survives at h
  rw [htext] at h ⊢
  by_cases hc : c = '-'
  · subst hc
    rw [read?_minus] at h
    exact unsigned?_append h hrest
  · rw [read?_unsigned hc] at h
    rw [List.cons_append, read?_unsigned hc, ← List.cons_append]
    exact unsigned?_append h hrest

theorem whole?_toDigits (n : Nat) : whole? (Nat.toDigits 10 n) = some (Nat.toDigits 10 n, []) := by
  have hspan : spanDigits (Nat.toDigits 10 n) = (Nat.toDigits 10 n, []) :=
    Binary64.spanDigits_all fun _ h => Nat.isDigit_of_mem_toDigits (by decide) (by decide) h
  by_cases hzero : n = 0
  · subst hzero
    rfl
  · unfold whole?
    rw [hspan]
    split
    · rename_i heq
      obtain ⟨hdigits, rfl⟩ := Prod.mk.inj heq
      rw [hdigits]
    · rename_i heq
      have hdigits := (Prod.mk.inj heq).1
      exact absurd hdigits (toDigits_ne_zero_cons (by omega) _)
    · rename_i heq
      exact absurd (Prod.mk.inj heq).1 Nat.toDigits_ne_nil
    · rename_i heq
      cases heq
      rfl

theorem unsigned?_toDigits (negative : Bool) (n : Nat) :
    unsigned? negative (Nat.toDigits 10 n) = some (ofWhole negative (Nat.toDigits 10 n), []) := by
  rw [unsigned?, whole?_toDigits]
  rfl

/-- Integers of 64 bits survive. -/
theorem survives_toInt (n : Int64) : (JsonNumber.integer n.toInt).Survives := by
  have hleast := minValue_toInt_le n
  have hmost := toInt_le_maxValue n
  have hmin : Int64.minValue.toInt = -9223372036854775808 := rfl
  have hmax : Int64.maxValue.toInt = 9223372036854775807 := rfl
  generalize n.toInt = i at hleast hmost ⊢
  rw [hmin] at hleast
  rw [hmax] at hmost
  rw [Survives, text, Int.toString_eq_repr, Int.repr_eq_if]
  split
  · rename_i hpos
    obtain ⟨c, cs, hdigits⟩ : ∃ c cs, Nat.toDigits 10 i.toNat = c :: cs :=
      List.exists_cons_of_ne_nil Nat.toDigits_ne_nil
    have hc : c ≠ '-' := by
      rintro rfl
      have hdigit := Nat.isDigit_of_mem_toDigits (b := 10) (n := i.toNat) (by decide) (by decide)
        (hdigits ▸ List.mem_cons_self)
      cases hdigit
    rw [Nat.toList_repr, hdigits, read?_unsigned hc, ← hdigits, unsigned?_toDigits, ofWhole]
    have hsize : i.toNat < UInt64.size := by
      simp only [UInt64.size]
      omega
    simp [Binary64.digitsValue_toDigits, hsize, Int.max_eq_left hpos]
  · have hne : (-i).toNat ≠ 0 := by omega
    have hsize : (-i).toNat ≤ Int64.minValue.toInt.natAbs := by
      rw [hmin]
      omega
    rw [String.toList_append, Nat.toList_repr]
    show read? ('-' :: Nat.toDigits 10 (-i).toNat) = _
    rw [read?_minus, unsigned?_toDigits, ofWhole]
    have hvalue : -((-i).toNat : Int) = i := by omega
    simp only [Binary64.digitsValue_toDigits, if_true, hne, ne_eq, not_false_eq_true, hsize,
      and_self, hvalue]

end JsonNumber

/-! ## Strings -/

namespace JsonTree

/-- A control character in four digits. -/
theorem hexUnit?_toDigits {n : Nat} (h : n < 32) (cs : List Char) :
    hexUnit? (List.replicate (4 - (Nat.toDigits 16 n).length) '0' ++ Nat.toDigits 16 n ++ cs) =
      some (n, cs) := by
  interval_cases n <;> rfl

theorem unicodeEscape?_control {n : Nat} (h : n < 32) (cs : List Char) :
    unicodeEscape?
        (List.replicate (4 - (Nat.toDigits 16 n).length) '0' ++ Nat.toDigits 16 n ++ cs) =
      some (some (Char.ofNat n), cs) := by
  have hhigh : isHighSurrogate n = false := by simp [isHighSurrogate]; omega
  have hlow : isLowSurrogate n = false := by simp [isLowSurrogate]; omega
  rw [unicodeEscape?, hexUnit?_toDigits h]
  simp [hhigh, hlow]

theorem stringRest?_escapedChar (fuel : Nat) (before : List (Option Char)) (c : Char)
    (cs : List Char) :
    stringRest? (fuel + 1) before (Json.escapedChar c ++ cs) =
      stringRest? fuel (some c :: before) cs := by
  unfold Json.escapedChar
  split
  · rename_i hc
    subst hc
    rfl
  split
  · rename_i hc
    subst hc
    rfl
  split
  · rename_i hc
    subst hc
    rfl
  split
  · rename_i hc
    subst hc
    rfl
  split
  · rename_i hc
    subst hc
    rfl
  split
  · rename_i hc
    obtain rfl : c = Char.ofNat 8 := by rw [← hc, Char.ofNat_toNat]
    rfl
  split
  · rename_i hc
    obtain rfl : c = Char.ofNat 12 := by rw [← hc, Char.ofNat_toNat]
    rfl
  split
  · rename_i hcontrol
    have hescape := unicodeEscape?_control hcontrol cs
    rw [Char.ofNat_toNat] at hescape
    simp only [List.append_assoc, List.cons_append, List.nil_append] at hescape ⊢
    simp [stringRest?, escape?, hescape]
  · rename_i hquote hbackslash _ _ _ _ _ hplain
    simp [stringRest?, hquote, hbackslash, hplain]

theorem stringOf?_some (cs : List Char) :
    stringOf? (cs.map some) = some (String.ofList cs) := by
  have h : (cs.map some).mapM id = some cs := by
    induction cs with
    | nil => rfl
    | cons c cs ih => simp [ih]
  rw [stringOf?, h]
  rfl

theorem stringRest?_escaped {fuel : Nat} {before : List (Option Char)} (cs rest : List Char)
    (h : cs.length < fuel) :
    stringRest? fuel before (cs.flatMap Json.escapedChar ++ '"' :: rest) =
      some (stringOf? (before.reverse ++ cs.map some), rest) := by
  induction cs generalizing fuel before with
  | nil =>
    obtain ⟨fuel, rfl⟩ := Nat.exists_eq_succ_of_ne_zero (Nat.ne_of_gt h)
    simp [stringRest?]
  | cons c cs ih =>
    obtain ⟨fuel, rfl⟩ := Nat.exists_eq_succ_of_ne_zero (Nat.ne_of_gt (Nat.zero_lt_of_lt h))
    rw [List.length_cons] at h
    rw [List.flatMap_cons, List.append_assoc, Nat.succ_eq_add_one, stringRest?_escapedChar,
      ih (by omega)]
    simp

theorem length_escapedChar_pos (c : Char) : 0 < (Json.escapedChar c).length := by
  unfold Json.escapedChar
  repeat' split
  all_goals simp

theorem toList_stringText (s : String) (rest : List Char) :
    (Json.stringText s).toList ++ rest =
      '"' :: (s.toList.flatMap Json.escapedChar ++ '"' :: rest) := by
  simp [Json.stringText]

theorem length_le_stringText (s : String) : s.toList.length + 2 ≤ (Json.stringText s).toList.length := by
  have h : s.toList.length ≤ (s.toList.flatMap Json.escapedChar).length := by
    induction s.toList with
    | nil => simp
    | cons c cs ih =>
      have hc := length_escapedChar_pos c
      rw [List.flatMap_cons, List.length_append, List.length_cons]
      omega
  simp [Json.stringText] at h ⊢
  omega

theorem stringRest?_stringText {fuel : Nat} (s : String) (rest : List Char)
    (h : s.toList.length < fuel) :
    stringRest? fuel [] (s.toList.flatMap Json.escapedChar ++ '"' :: rest) =
      some (some s, rest) := by
  rw [stringRest?_escaped _ _ h, List.reverse_nil, List.nil_append, stringOf?_some,
    String.ofList_toList]

end JsonTree

end SqlChain
