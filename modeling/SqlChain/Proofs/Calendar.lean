import Mathlib.Tactic.IntervalCases
import Mathlib.Tactic.Ring
import SqlChain.Calendar

/-!
# Days and their numbers

Every day number is that of a valid date. The day within four centuries is split into centuries,
groups of four years, years and days, and only the last of each may be longer than the others.
-/

namespace SqlChain.Date

theorem exists_yearOfCycle {day : Nat} (h : day < 146097) :
    ∃ century quad year rest : Nat, century ≤ 3 ∧ quad ≤ 24 ∧ year ≤ 3 ∧
      (rest ≤ 364 ∨ rest = 365 ∧ year = 3 ∧ (quad = 24 → century = 3)) ∧
      day = 36524 * century + 1461 * quad + 365 * year + rest ∧
      yearOfCycle day = 100 * century + 4 * quad + year := by
  obtain ⟨century, inCentury, hday, hcentury, hin⟩ : ∃ century inCentury : Nat,
      day = 36524 * century + inCentury ∧ century ≤ 3 ∧
        (inCentury ≤ 36523 ∨ inCentury = 36524 ∧ century = 3) :=
    ⟨min (day / 36524) 3, day - 36524 * min (day / 36524) 3, by omega, by omega, by omega⟩
  obtain ⟨quad, inQuad, hcent, hquad, hinq⟩ : ∃ quad inQuad : Nat,
      inCentury = 1461 * quad + inQuad ∧ quad ≤ 24 ∧ inQuad ≤ 1460 :=
    ⟨inCentury / 1461, inCentury % 1461, by omega, by omega, by omega⟩
  obtain ⟨year, rest, hq, hyear, hrest⟩ : ∃ year rest : Nat,
      inQuad = 365 * year + rest ∧ year ≤ 3 ∧ (rest ≤ 364 ∨ rest = 365 ∧ year = 3) :=
    ⟨min (inQuad / 365) 3, inQuad - 365 * min (inQuad / 365) 3, by omega, by omega, by omega⟩
  refine ⟨century, quad, year, rest, hcentury, hquad, hyear, by omega, by omega, ?_⟩
  have quads : day / 1460 = 25 * century + quad + (24 * century + quad + inQuad) / 1460 := by omega
  have centuries : day / 36524 = century + day / 146096 := by
    rcases hin with hin | ⟨hin, hthree⟩ <;> omega
  have most : day / 146096 ≤ 1 := by omega
  unfold yearOfCycle
  omega

/-- Days from the first of March of year zero to that of the year `first`. -/
def daysTo (first : Int) : Int := first * 365 + first / 4 - first / 100 + first / 400

/-- `rest` days after the first of March of the year `first`. -/
def afterMarch (first : Int) (rest : Nat) : Date :=
  let month := (5 * rest + 2) / 153
  { year := if month < 10 then first else first + 1
    month := if month < 10 then month + 3 else month - 9
    day := rest - daysBefore month + 1 }

/-- The date of a day number falls within the year that begins in some March. -/
theorem ofDayNumber_parts (number : Int) :
    ∃ (first : Int) (rest : Nat), rest ≤ 365 ∧ (rest = 365 → isLeapYear (first + 1)) ∧
      number = daysTo first + rest ∧ ofDayNumber number = afterMarch first rest := by
  obtain ⟨century, quad, year, rest, hc, hq, hy, hrest, hday, heq⟩ :=
    exists_yearOfCycle (by omega : (number % 146097).toNat < 146097)
  generalize hin : (number % 146097).toNat = inCycle at hday heq
  generalize hcycle : number / 146097 = cycle
  have hnumber : number = 146097 * cycle + inCycle := by omega
  have quads : yearOfCycle inCycle / 4 = 25 * century + quad := by omega
  have centuries : yearOfCycle inCycle / 100 = century := by omega
  have inYear : inCycle - (365 * yearOfCycle inCycle + yearOfCycle inCycle / 4 -
      yearOfCycle inCycle / 100) = rest := by rw [quads, centuries, heq]; omega
  refine ⟨yearOfCycle inCycle + 400 * cycle, rest, by omega, ?_, ?_, ?_⟩
  · intro hlast
    have hthree : year = 3 := by omega
    have hfull : quad = 24 → century = 3 := by omega
    rw [heq, hthree]
    simp only [isLeapYear, Bool.and_eq_true, Bool.or_eq_true, beq_iff_eq, bne_iff_ne]
    clear quads centuries inYear hday heq hrest hnumber
    omega
  · have byFour : ((yearOfCycle inCycle : Int) + 400 * cycle) / 4 =
        25 * century + quad + 100 * cycle := by omega
    have byHundred : ((yearOfCycle inCycle : Int) + 400 * cycle) / 100 =
        century + 4 * cycle := by omega
    have byFourHundred : ((yearOfCycle inCycle : Int) + 400 * cycle) / 400 = cycle := by omega
    rw [daysTo, byFour, byHundred, byFourHundred, hnumber, heq, hday]
    push_cast
    ring
  · simp only [ofDayNumber, afterMarch, hin, hcycle, inYear]

theorem isValid_ofDayNumber (number : Int) : (ofDayNumber number).isValid = true := by
  obtain ⟨first, rest, hrest, hleap, -, heq⟩ := ofDayNumber_parts number
  rw [heq]
  by_cases hlast : rest = 365
  · have leap := hleap hlast
    subst hlast
    simp [isValid, afterMarch, daysInMonth, daysBefore, leap]
  · obtain ⟨month, hmonth⟩ : ∃ month, (5 * rest + 2) / 153 = month := ⟨_, rfl⟩
    have hmost : month ≤ 11 := by omega
    have whole : 28 ≤ if isLeapYear (first + 1) then 29 else 28 := by split <;> omega
    simp only [isValid, afterMarch, daysInMonth, daysBefore, hmonth]
    interval_cases month <;> simp <;> omega

theorem dayNumber_ofDayNumber (number : Int) : (ofDayNumber number).dayNumber = number := by
  obtain ⟨first, rest, hrest, -, hnumber, heq⟩ := ofDayNumber_parts number
  rw [heq]
  simp only [daysTo] at hnumber
  simp only [dayNumber, afterMarch, daysBefore]
  by_cases h : (5 * rest + 2) / 153 < 10
  · simp only [h, if_true]
    have late : ¬ (5 * rest + 2) / 153 + 3 ≤ 2 := by omega
    simp only [late, if_false]
    omega
  · simp only [h, if_false]
    have early : (5 * rest + 2) / 153 - 9 ≤ 2 := by omega
    simp only [early, if_true]
    omega

/-! ## One day after another -/

/-- The day after. -/
def next (date : Date) : Date :=
  if date.day < daysInMonth date.year date.month then { date with day := date.day + 1 }
  else if date.month < 12 then { date with month := date.month + 1, day := 1 }
  else { year := date.year + 1, month := 1, day := 1 }

theorem daysTo_succ (first : Int) :
    daysTo (first + 1) = daysTo first + if isLeapYear (first + 1) then 366 else 365 := by
  simp only [daysTo, isLeapYear]
  by_cases h4 : (first + 1) % 4 = 0 <;> by_cases h100 : (first + 1) % 100 = 0 <;>
    by_cases h400 : (first + 1) % 400 = 0 <;> simp [h4, h100, h400] <;> omega

theorem daysTo_le {first later : Int} (h : first ≤ later) : daysTo first ≤ daysTo later := by
  simp only [daysTo]
  omega

/-- A day lies in one year only. -/
theorem first_le {first other : Int} {rest : Nat} (hrest : rest ≤ 365)
    (hleap : rest = 365 → isLeapYear (first + 1) = true)
    (h : daysTo other ≤ daysTo first + rest) : other ≤ first := by
  by_contra hlater
  have hnext := daysTo_le (by omega : first + 1 ≤ other)
  rw [daysTo_succ] at hnext
  split at hnext
  · omega
  · rename_i hcommon
    have hshort : rest ≠ 365 := fun h => hcommon (hleap h)
    omega

theorem afterMarch_succ (first : Int) {rest : Nat}
    (hrest : rest < 364 ∨ rest = 364 ∧ isLeapYear (first + 1) = true) :
    afterMarch first (rest + 1) = (afterMarch first rest).next := by
  rcases hrest with hrest | ⟨rfl, hleap⟩
  · obtain ⟨month, hmonth⟩ : ∃ month, (5 * rest + 2) / 153 = month := ⟨_, rfl⟩
    have hmost : month ≤ 11 := by omega
    have hlater : (5 * (rest + 1) + 2) / 153 = month ∨
        (5 * (rest + 1) + 2) / 153 = month + 1 := by omega
    have hshort : 28 ≤ if isLeapYear (first + 1) then 29 else 28 := by split <;> omega
    rcases hlater with hlater | hlater <;>
      simp only [afterMarch, next, daysBefore, daysInMonth, hmonth, hlater] <;>
      interval_cases month <;> simp <;> grind
  · simp [afterMarch, next, daysBefore, daysInMonth, hleap]

theorem afterMarch_last (first : Int) :
    afterMarch (first + 1) 0 =
      (afterMarch first (if isLeapYear (first + 1) then 365 else 364)).next := by
  by_cases h : isLeapYear (first + 1) <;> simp [h, afterMarch, next, daysBefore, daysInMonth]

theorem ofDayNumber_eq {number first : Int} {rest : Nat} (hrest : rest ≤ 365)
    (hleap : rest = 365 → isLeapYear (first + 1) = true) (hnumber : number = daysTo first + rest) :
    ofDayNumber number = afterMarch first rest := by
  obtain ⟨first', rest', hrest', hleap', hnumber', heq⟩ := ofDayNumber_parts number
  have hle := first_le hrest hleap (by omega : daysTo first' ≤ daysTo first + rest)
  have hge := first_le hrest' hleap' (by omega : daysTo first ≤ daysTo first' + rest')
  obtain rfl : first' = first := by omega
  obtain rfl : rest' = rest := by omega
  exact heq

/-- The next day number is that of the next day. -/
theorem ofDayNumber_succ (number : Int) :
    ofDayNumber (number + 1) = (ofDayNumber number).next := by
  obtain ⟨first, rest, hrest, hleap, hnumber, heq⟩ := ofDayNumber_parts number
  rw [heq]
  by_cases hwithin : rest < 364 ∨ rest = 364 ∧ isLeapYear (first + 1) = true
  · have hnext : ofDayNumber (number + 1) = afterMarch first (rest + 1) :=
      ofDayNumber_eq (by omega) (fun h => hwithin.elim (by omega) And.right) (by omega)
    rw [hnext, afterMarch_succ first hwithin]
  · have hlast : rest = if isLeapYear (first + 1) then 365 else 364 := by
      split <;> rename_i h <;> simp only [h] at hwithin hleap <;> grind
    have hyear := daysTo_succ first
    have hnext : ofDayNumber (number + 1) = afterMarch (first + 1) 0 :=
      ofDayNumber_eq (by decide) (by omega) (by split at hyear <;> grind)
    rw [hnext, hlast, afterMarch_last]

end SqlChain.Date
