/-!
# The proleptic Gregorian calendar

Days are counted from the first of March of year zero, so that the leap day is the last day of its
year and four hundred years are always `146097` days.
-/

namespace SqlChain

/-- A day by its number in the calendar. -/
structure Date where
  year : Int
  month : Nat
  day : Nat
deriving DecidableEq, Repr

namespace Date

def isLeapYear (year : Int) : Bool :=
  year % 4 == 0 && (year % 100 != 0 || year % 400 == 0)

def daysInMonth (year : Int) (month : Nat) : Nat :=
  if month = 2 then if isLeapYear year then 29 else 28
  else if month = 4 ∨ month = 6 ∨ month = 9 ∨ month = 11 then 30
  else 31

def isValid (date : Date) : Bool :=
  1 ≤ date.month && date.month ≤ 12 && 1 ≤ date.day &&
    date.day ≤ daysInMonth date.year date.month

/-- Days before the month, months being counted from March. -/
def daysBefore (month : Nat) : Nat := (153 * month + 2) / 5

/-- The number of days from the first of March of year zero. -/
def dayNumber (date : Date) : Int :=
  let year := if date.month ≤ 2 then date.year - 1 else date.year
  let month := if date.month ≤ 2 then date.month + 9 else date.month - 3
  year * 365 + year / 4 - year / 100 + year / 400 + daysBefore month + (date.day - 1 : Nat)

/-- The year within its four centuries, given the day within them. -/
def yearOfCycle (day : Nat) : Nat :=
  (day - day / 1460 + day / 36524 - day / 146096) / 365

/-- The date of a day number. -/
def ofDayNumber (number : Int) : Date :=
  let cycle := number / 146097
  let inCycle := (number % 146097).toNat
  let year := yearOfCycle inCycle
  let inYear := inCycle - (365 * year + year / 4 - year / 100)
  let month := (5 * inYear + 2) / 153
  let first := year + 400 * cycle
  { year := if month < 10 then first else first + 1
    month := if month < 10 then month + 3 else month - 9
    day := inYear - daysBefore month + 1 }

end Date

end SqlChain
