/-!
Dates of the proleptic Gregorian calendar and their numbers, counted in days from 1970-01-01.
-/

namespace GribCatalog

structure Date where
  year : Int
  month : Nat
  day : Nat
deriving DecidableEq, Repr

namespace Date

def isLeap (year : Int) : Bool :=
  year % 4 = 0 && (year % 100 ≠ 0 || year % 400 = 0)

def monthLengths (year : Int) : List Nat :=
  [31, if isLeap year then 29 else 28, 31, 30, 31, 30, 31, 31, 30, 31, 30, 31]

/-- Years that dates are kept for. -/
def firstYear : Int := -262143

def lastYear : Int := 262142

def isValid (d : Date) : Bool :=
  firstYear ≤ d.year && d.year ≤ lastYear && 1 ≤ d.month && d.month ≤ 12 && 1 ≤ d.day &&
    d.day ≤ (monthLengths d.year).getD (d.month - 1) 0

def yearStart (year : Int) : Int :=
  365 * (year - 1970) + (year - 1) / 4 - (year - 1) / 100 + (year - 1) / 400 - 477

def number (d : Date) : Int :=
  let before : Nat := ((monthLengths d.year).take (d.month - 1)).foldl (· + ·) 0
  yearStart d.year + before + (d.day : Int) - 1

/-- The year that holds a day, within one year of the mean year's guess. -/
def yearOf (n : Int) : Int :=
  let guess := 400 * (n + 719528) / 146097
  if n < yearStart guess then guess - 1
  else if yearStart (guess + 1) ≤ n then guess + 1
  else guess

/-- Month and day of a day of the year, both counted from one; `days` is counted from zero. -/
def monthDay (month days : Nat) : List Nat → Nat × Nat
  | [] => (month, days + 1)
  | len :: lens => if days < len then (month, days + 1) else monthDay (month + 1) (days - len) lens

def ofNumber (n : Int) : Date :=
  let year := yearOf n
  let (month, day) := monthDay 1 (n - yearStart year).toNat (monthLengths year)
  ⟨year, month, day⟩

end Date

end GribCatalog
