import GribCatalog.Calendar.Date
import GribCatalog.Text.Numeral

/-!
Instants of universal time and their RFC 3339 text. A leap second is the second before it with a
second more of nanoseconds.
-/

namespace GribCatalog

structure Instant where
  /-- Seconds since 1970-01-01T00:00:00. -/
  seconds : Int
  nanos : Nat
deriving DecidableEq, Repr

namespace Instant

instance : Ord Instant :=
  ⟨fun a b => (compare a.seconds b.seconds).then (compare a.nanos b.nanos)⟩

/-- Instants of the years that dates are kept for. -/
def firstSecond : Int := 86400 * Date.yearStart Date.firstYear

def lastSecond : Int := 86400 * Date.yearStart (Date.lastYear + 1) - 1

def isRepresentable (t : Instant) : Bool :=
  firstSecond ≤ t.seconds && t.seconds ≤ lastSecond

def ofDate (d : Date) (hour minute second nanos : Nat) : Instant :=
  ⟨86400 * d.number + (3600 * hour + 60 * minute + second : Nat), nanos⟩

def ofCivil? (d : Date) (hour minute second : Nat) : Option Instant :=
  if d.isValid && hour < 24 && minute < 60 && second < 60 then
    some (ofDate d hour minute second 0)
  else none

def addSeconds? (t : Instant) (n : Int) : Option Instant :=
  let later : Instant := { t with seconds := t.seconds + n }
  if later.isRepresentable then some later else none

def yearText (year : Int) : List Char :=
  if 0 ≤ year && year ≤ 9999 then Text.padded 4 year.toNat
  else (if year < 0 then '-' else '+') :: Text.padded 4 year.natAbs

/-- Three, six or nine digits, as few as show the nanoseconds, and none for a whole second. -/
def fractionText (nanos : Nat) : List Char :=
  if nanos = 0 then []
  else if nanos % 1000000 = 0 then '.' :: Text.padded 3 (nanos / 1000000)
  else if nanos % 1000 = 0 then '.' :: Text.padded 6 (nanos / 1000)
  else '.' :: Text.padded 9 nanos

def textWith (zone : List Char) (t : Instant) : List Char :=
  let date := Date.ofNumber (t.seconds / 86400)
  let second := (t.seconds % 86400).toNat
  let leap := if 1000000000 ≤ t.nanos then 1 else 0
  yearText date.year ++ '-' :: Text.padded 2 date.month ++ '-' :: Text.padded 2 date.day ++
    'T' :: Text.padded 2 (second / 3600) ++ ':' :: Text.padded 2 (second / 60 % 60) ++
    ':' :: Text.padded 2 (second % 60 + leap) ++
    fractionText (t.nanos - leap * 1000000000) ++ zone

def text (t : Instant) : List Char :=
  t.textWith ['+', '0', '0', ':', '0', '0']

def zuluText (t : Instant) : List Char :=
  t.textWith ['Z']

end Instant

end GribCatalog
