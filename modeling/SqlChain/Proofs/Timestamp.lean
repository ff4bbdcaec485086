import Mathlib.Data.List.Basic
import SqlChain.Proofs.Calendar
import SqlChain.Proofs.Digits
import SqlChain.Timestamp.Reader
import SqlChain.Timestamp.Text

/-!
# Timestamps that are read back

Reading takes the date and the time of a clock from the front of a text, and then the offset, so
that a timestamp for which RFC 3339 has a form is what its text is read as. It has one if the local
year has four digits, the offset is in whole minutes, and a leap second stands at the end of a
minute.
-/

namespace SqlChain

open Binary64 (digitsValue spanDigits EndsDigits endsDigits_cons endsDigits_nil)
open Text (dropWhiteSpace isWhiteSpace padded)

/-! ## Parts of the text -/

namespace Timestamp

theorem number?_digits {most : Nat} {ds rest : List Char} (hmost : 0 < most)
    (hlength : ds.length = most) (hds : ∀ c ∈ ds, c.isDigit = true) :
    number? most (ds ++ rest) = some (digitsValue ds, rest) := by
  have htake : (ds ++ rest).take most = ds := by rw [← hlength, List.take_left]
  have hdrop : (ds ++ rest).drop most = rest := by rw [← hlength, List.drop_left]
  obtain ⟨c, cs, rfl⟩ := List.exists_cons_of_length_pos (hlength ▸ hmost)
  rw [number?, htake, hdrop, Binary64.spanDigits_all hds]
  rfl

/-- Where any number of digits may stand all of them are taken. -/
theorem number?_all {width : Nat} {ds rest : List Char} (hlength : width + 1 ≤ ds.length)
    (hds : ∀ c ∈ ds, c.isDigit = true) (hrest : EndsDigits rest) :
    number? (ds ++ rest).length (ds ++ rest) = some (digitsValue ds, rest) := by
  obtain ⟨c, cs, rfl⟩ := List.exists_cons_of_length_pos (by omega : 0 < ds.length)
  rw [number?, List.take_length, List.drop_length, Binary64.spanDigits_digits hds hrest]
  exact congrArg (fun rest => some (_, rest)) rest.append_nil

theorem dropWhiteSpace_digits {ds rest : List Char} (hlength : 0 < ds.length)
    (hds : ∀ c ∈ ds, c.isDigit = true) : dropWhiteSpace (ds ++ rest) = ds ++ rest := by
  obtain ⟨c, cs, rfl⟩ := List.exists_cons_of_length_pos hlength
  exact Text.dropWhiteSpace_cons (Text.isWhiteSpace_of_isDigit (hds c (by simp))) _

theorem number?_padded {width n : Nat} (hwidth : 0 < width) (h : n < 10 ^ width)
    (rest : List Char) :
    number? width (dropWhiteSpace ((padded width n).toList ++ rest)) = some (n, rest) := by
  have hlength := Text.length_padded hwidth h
  rw [dropWhiteSpace_digits (by omega) fun _ => Text.isDigit_of_mem_padded,
    number?_digits hwidth hlength fun _ => Text.isDigit_of_mem_padded,
    Binary64.digitsValue_padded]

theorem expect?_cons {c : Char} (h : isWhiteSpace c = false) (rest : List Char) :
    expect? c (dropWhiteSpace (c :: rest)) = some rest := by
  rw [Text.dropWhiteSpace_cons h, expect?, if_pos rfl]

theorem year?_padded {year : Int} (hfrom : 0 ≤ year) (hto : year ≤ 9999) (rest : List Char) :
    year? (dropWhiteSpace ((yearText year).toList ++ rest)) = some (year, rest) := by
  have hlt : year.toNat < 10 ^ 4 := by omega
  have hread := number?_padded (by decide : 0 < 4) hlt rest
  have hlength := Text.length_padded (by decide : 0 < 4) hlt
  rw [yearText, if_pos ⟨hfrom, hto⟩]
  rw [dropWhiteSpace_digits (by omega) fun _ => Text.isDigit_of_mem_padded] at hread ⊢
  obtain ⟨c, cs, heq⟩ := List.exists_cons_of_length_pos (hlength ▸ (by decide : 0 < 4))
  have hc : c.isDigit = true := Text.isDigit_of_mem_padded (heq ▸ List.mem_cons_self)
  rw [heq] at hread ⊢
  -- a year that begins with a digit has no sign
  have hunsigned : year? (c :: cs ++ rest) =
      (number? 4 (c :: cs ++ rest)).map (Prod.map Int.ofNat id) := by
    unfold year?
    split
    · rename_i h
      cases h
      cases hc
    · rename_i h
      cases h
      cases hc
    · rfl
  rw [hunsigned, hread]
  simp [Int.toNat_of_nonneg hfrom]

/-- A year that is written with a sign is read with it. -/
theorem year?_yearText (year : Int) {rest : List Char} (hrest : EndsDigits rest) :
    year? (dropWhiteSpace ((yearText year).toList ++ rest)) = some (year, rest) := by
  have hread := number?_all (Text.le_length_padded 4 year.natAbs)
    (fun _ => Text.isDigit_of_mem_padded) hrest
  rw [Binary64.digitsValue_padded] at hread
  by_cases hplain : 0 ≤ year ∧ year ≤ 9999
  · exact year?_padded hplain.1 hplain.2 rest
  rw [yearText, if_neg hplain, String.toList_append, List.append_assoc]
  by_cases hneg : year < 0
  · have hsign : "-".toList = ['-'] := by decide
    have hvalue : -(year.natAbs : Int) = year := by omega
    rw [if_pos hneg, hsign, List.singleton_append, Text.dropWhiteSpace_cons (by decide), year?,
      hread]
    exact congrArg (fun year => some (year, rest)) hvalue
  · have hsign : "+".toList = ['+'] := by decide
    have hvalue : (year.natAbs : Int) = year := by omega
    rw [if_neg hneg, hsign, List.singleton_append, Text.dropWhiteSpace_cons (by decide), year?,
      hread]
    exact congrArg (fun year => some (year, rest)) hvalue

theorem nanoOfDigits_padded {width n : Nat} (hwidth : 0 < width) (hwidth_le : width ≤ 9)
    (h : n < 10 ^ width) : nanoOfDigits (padded width n).toList = n * 10 ^ (9 - width) := by
  have hlength := Text.length_padded hwidth h
  rw [nanoOfDigits, List.take_of_length_le (by omega), hlength, Binary64.digitsValue_padded]
  rfl

theorem fraction?_padded {width n : Nat} (hwidth : 0 < width) (hwidth_le : width ≤ 9)
    (h : n < 10 ^ width) {rest : List Char} (hrest : EndsDigits rest) :
    fraction? ('.' :: ((padded width n).toList ++ rest)) =
      some (n * 10 ^ (9 - width), rest) := by
  have hlength := Text.length_padded hwidth h
  obtain ⟨c, cs, heq⟩ := List.exists_cons_of_length_pos (hlength ▸ hwidth)
  rw [fraction?, Binary64.spanDigits_digits (fun _ => Text.isDigit_of_mem_padded) hrest]
  rw [← nanoOfDigits_padded hwidth hwidth_le h, heq]
  rfl

/-- Neither a further digit nor a point stands in front. -/
def EndsTime (cs : List Char) : Prop := EndsDigits cs ∧ cs.head? ≠ some '.'

theorem fraction?_fractionText {nano : Nat} (h : nano < 1000000000) {rest : List Char}
    (hrest : EndsTime rest) :
    fraction? ((fractionText nano).toList ++ rest) = some (nano, rest) := by
  obtain ⟨hdigits, hpoint⟩ := hrest
  unfold fractionText
  split
  · rename_i hzero
    rw [hzero]
    cases rest with
    | nil => rfl
    | cons c cs =>
      have hc : c ≠ '.' := fun hc => hpoint (by rw [hc]; rfl)
      simp only [String.toList_empty, List.nil_append]
      unfold fraction?
      split
      · rename_i heq
        cases heq
        exact absurd rfl hc
      · rfl
  split
  · rename_i hmillis
    have hvalue : nano / 1000000 * 10 ^ (9 - 3) = nano := by omega
    have hread := fraction?_padded (by decide : 0 < 3) (by decide)
      (by omega : nano / 1000000 < 10 ^ 3) hdigits
    rw [hvalue] at hread
    simpa using hread
  split
  · rename_i hmicros
    have hvalue : nano / 1000 * 10 ^ (9 - 6) = nano := by omega
    have hread := fraction?_padded (by decide : 0 < 6) (by decide)
      (by omega : nano / 1000 < 10 ^ 6) hdigits
    rw [hvalue] at hread
    simpa using hread
  · have hread := fraction?_padded (by decide : 0 < 9) (by decide)
      (by omega : nano < 10 ^ 9) hdigits
    simpa using hread

end Timestamp

/-! ## Date and time -/

namespace Clock

/-- A leap second stands at the end of a minute. -/
def isRegular (c : Clock) : Bool := c.nano < 1000000000 || c.second % 60 == 59

theorem isRegular_eq_true_iff {c : Clock} :
    c.isRegular = true ↔ c.nano < 1000000000 ∨ c.second % 60 = 59 := by
  simp [isRegular]

theorem ofFields?_date {c : Clock} (h : c.isRegular = true) :
    ofFields? c.date c.hour c.minute c.secondOfMinute c.fraction = some c := by
  have hsecond := c.second_lt
  have hnano := c.nano_lt
  rw [isRegular_eq_true_iff] at h
  have hvalid := Date.isValid_ofDayNumber c.day
  have hbounds : c.date.isValid ∧ c.hour < 24 ∧ c.minute < 60 ∧ c.secondOfMinute ≤ 60 ∧
      c.fraction < 1000000000 := by
    refine ⟨hvalid, ?_, ?_, ?_, ?_⟩ <;>
      simp only [hour, minute, secondOfMinute, fraction] <;> omega
  rw [ofFields?, dif_pos hbounds]
  have hday : c.date.dayNumber = c.day := Date.dayNumber_ofDayNumber c.day
  have hseconds : 3600 * c.hour + 60 * c.minute + min c.secondOfMinute 59 = c.second := by
    simp only [hour, minute, secondOfMinute]
    omega
  have hnanos : c.fraction + 1000000000 * (c.secondOfMinute - 59) = c.nano := by
    simp only [fraction, secondOfMinute]
    omega
  obtain ⟨day, second, nano, second_lt, nano_lt⟩ := c
  simp only at hday hseconds hnanos
  simp only [hday, hseconds, hnanos]

theorem shift_shift_neg (c : Clock) (seconds : Int) : (c.shift seconds).shift (-seconds) = c := by
  have hsecond := c.second_lt
  obtain ⟨day, second, nano, second_lt, nano_lt⟩ := c
  simp only [shift, Clock.mk.injEq, and_true]
  omega

/-- The clock shows a year of four digits. -/
def hasPlainYear (c : Clock) : Bool := 0 ≤ c.date.year && c.date.year ≤ 9999

theorem month_lt (c : Clock) : c.date.month < 10 ^ 2 := by
  have hvalid : c.date.isValid = true := Date.isValid_ofDayNumber c.day
  simp only [Date.isValid, Bool.and_eq_true, decide_eq_true_eq] at hvalid
  omega

theorem day_lt (c : Clock) : c.date.day < 10 ^ 2 := by
  have hvalid : c.date.isValid = true := Date.isValid_ofDayNumber c.day
  simp only [Date.isValid, Bool.and_eq_true, decide_eq_true_eq] at hvalid
  have hdays : Date.daysInMonth c.date.year c.date.month ≤ 31 := by
    unfold Date.daysInMonth
    repeat' split
    all_goals omega
  omega

theorem hour_lt (c : Clock) : c.hour < 10 ^ 2 := by
  have hsecond := c.second_lt
  simp only [hour]
  omega

theorem minute_lt (c : Clock) : c.minute < 10 ^ 2 := by
  simp only [minute]
  omega

theorem secondOfMinute_lt (c : Clock) : c.secondOfMinute < 10 ^ 2 := by
  have hnano := c.nano_lt
  simp only [secondOfMinute]
  omega

theorem fraction_lt (c : Clock) : c.fraction < 1000000000 := by
  simp only [fraction]
  omega

theorem readDate?_date (c : Clock) (rest : List Char) :
    Timestamp.readDate? ((yearText c.date.year).toList ++ '-' :: ((padded 2 c.date.month).toList ++
      '-' :: ((padded 2 c.date.day).toList ++ rest))) = some (c.date, rest) := by
  simp only [Timestamp.readDate?, Timestamp.year?_yearText c.date.year
      (endsDigits_cons (by decide : '-'.isDigit = false)), Option.bind_eq_bind,
    Option.bind_some, Timestamp.expect?_cons (by decide : isWhiteSpace '-' = false),
    Timestamp.number?_padded (by decide : 0 < 2) c.month_lt,
    Timestamp.number?_padded (by decide : 0 < 2) c.day_lt]
  rfl

theorem readClock?_time {c : Clock} (h : c.isRegular = true) {rest : List Char} (hrest : Timestamp.EndsTime rest) :
    Timestamp.readClock? c.date ((padded 2 c.hour).toList ++ ':' :: ((padded 2 c.minute).toList ++
      ':' :: ((padded 2 c.secondOfMinute).toList ++ ((fractionText c.fraction).toList ++ rest)))) =
      some (c, rest) := by
  simp only [Timestamp.readClock?, Option.bind_eq_bind, Option.bind_some,
    Timestamp.expect?_cons (by decide : isWhiteSpace ':' = false),
    Timestamp.number?_padded (by decide : 0 < 2) c.hour_lt,
    Timestamp.number?_padded (by decide : 0 < 2) c.minute_lt,
    Timestamp.number?_padded (by decide : 0 < 2) c.secondOfMinute_lt,
    Timestamp.fraction?_fractionText c.fraction_lt hrest, ofFields?_date h]
  rfl

end Clock

/-! ## The offset -/

namespace Timestamp

theorem twoDigits?_padded {n : Nat} (h : n < 100) (rest : List Char) :
    twoDigits? ((padded 2 n).toList ++ rest) = some (n, rest) := by
  have hlength := Text.length_padded (by decide : 0 < 2) (by omega : n < 10 ^ 2)
  have hdigits : ∀ c ∈ (padded 2 n).toList, c.isDigit = true := fun _ => Text.isDigit_of_mem_padded
  have hvalue := Binary64.digitsValue_padded 2 n
  obtain ⟨c, d, heq⟩ := List.length_eq_two.1 hlength
  rw [heq] at hdigits hvalue ⊢
  simp only [List.cons_append, List.nil_append, twoDigits?, hdigits c (by simp),
    hdigits d (by simp), and_self, if_true, hvalue]

theorem readOffset?_offsetText {seconds : Int} (h : seconds.natAbs < 86400)
    (hwhole : seconds % 60 = 0) : readOffset? (offsetText seconds).toList = some (seconds, []) := by
  have htotal : seconds.natAbs = 3600 * ((seconds.natAbs + 30) / 60 / 60) +
      60 * ((seconds.natAbs + 30) / 60 % 60) := by omega
  have hhour : (seconds.natAbs + 30) / 60 / 60 < 100 := by omega
  have hsixty : (seconds.natAbs + 30) / 60 % 60 < 60 := by omega
  simp only [offsetText]
  generalize (seconds.natAbs + 30) / 60 / 60 = hours at *
  generalize (seconds.natAbs + 30) / 60 % 60 = rest at *
  have hlength := Text.length_padded (by decide : 0 < 2) (by omega : rest < 10 ^ 2)
  obtain ⟨c, d, heq⟩ := List.length_eq_two.1 hlength
  have hc : c.isDigit = true := Text.isDigit_of_mem_padded (heq ▸ List.mem_cons_self)
  -- the colon goes with the white space between the numbers, and the digits stay
  have hdrop : (':' :: [c, d]).dropWhile (fun c => c == ':' || isWhiteSpace c) = [c, d] := by
    have hne : c ≠ ':' := by
      rintro rfl
      cases hc
    simp [hne, Text.isWhiteSpace_of_isDigit hc]
  have hread := twoDigits?_padded (by omega : rest < 100) []
  rw [List.append_nil, heq] at hread
  by_cases hsign : seconds < 0
  · simp [hsign, readOffset?, beginsWith, offsetSign?, twoDigits?_padded hhour, heq, hdrop, hread,
      hsixty]
    omega
  · simp [hsign, readOffset?, beginsWith, offsetSign?, twoDigits?_padded hhour, heq, hdrop, hread,
      hsixty]
    omega

theorem endsTime_zulu : EndsTime ['Z'] := ⟨endsDigits_cons (by decide), by decide⟩

theorem readOffset?_zulu : readOffset? ['Z'] = some (0, []) := by decide

theorem exists_offsetText (seconds : Int) :
    ∃ c rest, (offsetText seconds).toList = c :: rest ∧ (c = '-' ∨ c = '+') := by
  unfold offsetText
  split
  · exact ⟨'-', _, by simp [String.toList_append]; rfl, .inl rfl⟩
  · exact ⟨'+', _, by simp [String.toList_append]; rfl, .inr rfl⟩

theorem endsTime_offsetText (seconds : Int) : EndsTime (offsetText seconds).toList := by
  obtain ⟨c, rest, heq, rfl | rfl⟩ := exists_offsetText seconds <;> rw [heq]
  · exact ⟨endsDigits_cons (by decide), by simp⟩
  · exact ⟨endsDigits_cons (by decide), by simp⟩

theorem dropWhiteSpace_offsetText (seconds : Int) :
    dropWhiteSpace (offsetText seconds).toList = (offsetText seconds).toList := by
  obtain ⟨c, rest, heq, rfl | rfl⟩ := exists_offsetText seconds <;> rw [heq]
  · exact Text.dropWhiteSpace_cons (by decide) rest
  · exact Text.dropWhiteSpace_cons (by decide) rest

end Timestamp

/-! ## Years in reach -/

namespace Clock

/-- Another day or two leave a year of four digits within reach. -/
theorem inReach_of_hasPlainYear {c d : Clock} (h : c.hasPlainYear = true)
    (hfrom : c.day - 2 ≤ d.day) (hto : d.day ≤ c.day + 2) : d.inReach = true := by
  obtain ⟨first, rest, hrest, -, hday, hdate⟩ := Date.ofDayNumber_parts c.day
  obtain ⟨first', rest', hrest', -, hday', hdate'⟩ := Date.ofDayNumber_parts d.day
  have hyear : c.date.year = first ∨ c.date.year = first + 1 := by
    simp only [date, hdate, Date.afterMarch]
    split <;> simp
  have hyear' : d.date.year = first' ∨ d.date.year = first' + 1 := by
    simp only [date, hdate', Date.afterMarch]
    split <;> simp
  simp only [hasPlainYear, Bool.and_eq_true, decide_eq_true_eq] at h
  simp only [Date.daysTo] at hday hday'
  have hfirst : -1 ≤ first ∧ first ≤ 9999 := by omega
  have hfirst' : -10 ≤ first' ∧ first' ≤ 20000 := by omega
  have hleast : leastYear ≤ d.date.year := by
    simp only [leastYear]
    omega
  have hmost : d.date.year ≤ mostYear := by
    simp only [mostYear]
    omega
  simp [inReach, hleast, hmost]

theorem day_shift {seconds : Int} (c : Clock) (h : seconds.natAbs < 86400) :
    c.day - 1 ≤ (c.shift seconds).day ∧ (c.shift seconds).day ≤ c.day + 1 := by
  have hsecond := c.second_lt
  simp only [shift]
  omega

theorem toList_clockText (c : Clock) (rest : List Char) :
    c.clockText.toList ++ rest =
      (yearText c.date.year).toList ++ '-' :: ((padded 2 c.date.month).toList ++
        '-' :: ((padded 2 c.date.day).toList ++ 'T' :: ((padded 2 c.hour).toList ++
          ':' :: ((padded 2 c.minute).toList ++ ':' :: ((padded 2 c.secondOfMinute).toList ++
            ((fractionText c.fraction).toList ++ rest)))))) := by
  simp [clockText, String.toList_append]

end Clock

/-! ## Timestamps -/

namespace Timestamp

/-- RFC 3339 has a form for this timestamp. -/
def isPlain (t : Timestamp) : Bool :=
  t.clock.hasPlainYear && t.offset % 60 == 0 && t.clock.isRegular

theorem isPlain_eq_true_iff {t : Timestamp} : t.isPlain = true ↔
    t.clock.hasPlainYear = true ∧ t.offset % 60 = 0 ∧ t.clock.isRegular = true := by
  simp [isPlain, and_assoc]

/-- The date and the time of a clock in front of a text. -/
def readFront? (cs : List Char) : Option (Clock × List Char) := do
  let (date, cs) ← readDate? cs
  let cs ← separator? cs
  readClock? date cs

theorem readFront?_clockText {c : Clock} (h : c.isRegular = true) {rest : List Char}
    (hrest : EndsTime rest) : readFront? (c.clockText.toList ++ rest) = some (c, rest) := by
  rw [Clock.toList_clockText]
  simp only [readFront?, Clock.readDate?_date, Option.bind_eq_bind, Option.bind_some,
    separator?, true_or, if_true, Clock.readClock?_time h hrest]

theorem readChars?_eq_bind (cs : List Char) :
    readChars? cs = (readFront? cs).bind fun (clock, cs) => do
      let (offset, cs) ← readOffset? (dropWhiteSpace cs)
      guard (dropWhiteSpace cs).isEmpty
      let t ← ofClock? clock offset
      guard (clock.inReach && t.utc.inReach)
      return t := by
  simp only [readChars?, readFront?, Option.bind_eq_bind, Option.bind_assoc]

/-- A clock and an offset in front of nothing. -/
theorem readChars?_clockText {t : Timestamp} (h : t.isPlain = true) {offset : List Char}
    (hends : EndsTime offset) (hblank : dropWhiteSpace offset = offset)
    (hoffset : readOffset? offset = some (t.offset, [])) :
    readChars? (t.clock.clockText.toList ++ offset) = some t := by
  obtain ⟨hyear, -, hregular⟩ := isPlain_eq_true_iff.1 h
  have hclock := t.clock.inReach_of_hasPlainYear (d := t.clock) hyear (by omega) (by omega)
  have hshift : t.clock.shift (-t.offset) = t.utc := Clock.shift_shift_neg _ _
  have hreach : t.utc.inReach = true := by
    have hdays := Clock.day_shift t.utc t.offset_lt
    have hday : t.clock.day = (t.utc.shift t.offset).day := rfl
    exact t.clock.inReach_of_hasPlainYear hyear (by omega) (by omega)
  have ht : ofClock? t.clock t.offset = some t := by
    rw [ofClock?, dif_pos t.offset_lt, hshift]
  rw [readChars?_eq_bind, readFront?_clockText hregular hends]
  simp only [Option.bind_eq_bind, Option.bind_some, hblank, hoffset, ht, hclock, hreach]
  rfl

theorem ofText?_briefText {t : Timestamp} (h : t.isPlain = true) :
    ofText? t.briefText = some t := by
  rw [ofText?, briefText, String.toList_append]
  by_cases hzero : t.offset = 0
  · rw [if_pos hzero]
    exact readChars?_clockText h endsTime_zulu rfl (hzero ▸ readOffset?_zulu)
  · rw [if_neg hzero]
    exact readChars?_clockText h (endsTime_offsetText t.offset) (dropWhiteSpace_offsetText t.offset)
      (readOffset?_offsetText t.offset_lt (isPlain_eq_true_iff.1 h).2.1)

end Timestamp

end SqlChain
