import GribCatalog.Calendar.Instant
import GribCatalog.Text.Blank

/-!
Reading RFC 3339 text. The strict form has a year of four digits and no blanks; the lenient one
allows signed years, fields of fewer digits, and blanks before every field and separator.
-/

namespace GribCatalog.Instant

abbrev Reader (α : Type) := List Char → Option (α × List Char)

/-- A numeral of at least `least` digits that ends after `most`. -/
def number? (least most : Nat) : Reader Nat := fun cs =>
  let ds := (cs.take most).takeWhile Char.isDigit
  if ds.length < least then none else some (Nat.ofDigitChars 10 ds 0, cs.drop ds.length)

def separator? (c : Char) : List Char → Option (List Char)
  | d :: cs => if d = c then some cs else none
  | [] => none

def dateEnd? : List Char → Option (List Char)
  | c :: cs => if c = 'T' || c = 't' || c = ' ' then some cs else none
  | [] => none

/-- Nanoseconds after a point. Digits after the ninth are passed over. -/
def fraction? : Reader Nat
  | '.' :: cs => do
    let (n, rest) ← number? 1 9 cs
    let places := cs.length - rest.length
    some (n * Nat.pow 10 (9 - places), rest.dropWhile Char.isDigit)
  | cs => some (0, cs)

/-- Two digits of an hour and two of a minute, joined as `colon` reads, in minutes. -/
def zoneDigits? (colon : List Char → Option (List Char)) : Reader Nat := fun cs => do
  let (hours, cs) ← number? 2 2 cs
  let cs ← colon cs
  let (minutes, cs) ← number? 2 2 cs
  if minutes < 60 then some (60 * hours + minutes, cs) else none

/-- Offset from universal time in minutes: `Z`, or a sign and two digits each of hours and minutes.
-/
def zone? (colon : List Char → Option (List Char)) : Reader Int
  | [] => none
  | c :: cs =>
    if c = 'Z' || c = 'z' then some (0, cs)
    else if c = '+' then (zoneDigits? colon cs).map fun (n, cs) => ((n : Int), cs)
    else if c = '-' || c = Char.ofNat 0x2212 then
      (zoneDigits? colon cs).map fun (n, cs) => (-(n : Int), cs)
    else none

/-- The instant of a local time. A second of 60 is a leap second; offsets stay below a day. -/
def ofLocal? (d : Date) (hour minute second nanos : Nat) (offset : Int) : Option Instant :=
  if d.isValid && hour < 24 && minute < 60 && second ≤ 60 && offset.natAbs < 1440 then
    let t :=
      if second = 60 then ofDate d hour minute 59 (nanos + 1000000000)
      else ofDate d hour minute second nanos
    t.addSeconds? (-60 * offset)
  else none

def ofRfc3339? (cs : List Char) : Option Instant := do
  let (year, cs) ← number? 4 4 cs
  let cs ← separator? '-' cs
  let (month, cs) ← number? 2 2 cs
  let cs ← separator? '-' cs
  let (day, cs) ← number? 2 2 cs
  let cs ← dateEnd? cs
  let (hour, cs) ← number? 2 2 cs
  let cs ← separator? ':' cs
  let (minute, cs) ← number? 2 2 cs
  let cs ← separator? ':' cs
  let (second, cs) ← number? 2 2 cs
  let (nanos, cs) ← fraction? cs
  let (offset, cs) ← zone? (separator? ':') cs
  if cs = [] then ofLocal? ⟨year, month, day⟩ hour minute second nanos offset else none

/-- A field of one or two digits after blanks. -/
def field? : Reader Nat := fun cs =>
  number? 1 2 (Text.trimStart cs)

/-- A year after blanks. Only a signed one may have more than four digits. -/
def year? : Reader Int := fun cs =>
  match Text.trimStart cs with
  | '-' :: cs => (number? 1 cs.length cs).map fun (n, cs) => (-(n : Int), cs)
  | '+' :: cs => (number? 1 cs.length cs).map fun (n, cs) => ((n : Int), cs)
  | cs => (number? 1 4 cs).map fun (n, cs) => ((n : Int), cs)

/-- An offset as `zone?` reads it, with blanks and colons in any number, or the letters `UTC`. -/
def lenientZone? : Reader Int := fun cs =>
  if (cs.take 3).map Char.toUpper = ['U', 'T', 'C'] then some (0, cs.drop 3)
  else zone? (fun cs => some (cs.dropWhile fun c => c = ':' || Text.isBlank c)) cs

def ofLenient? (cs : List Char) : Option Instant := do
  let (year, cs) ← year? cs
  let cs ← separator? '-' (Text.trimStart cs)
  let (month, cs) ← field? cs
  let cs ← separator? '-' (Text.trimStart cs)
  let (day, cs) ← field? cs
  let cs ← dateEnd? cs
  let (hour, cs) ← field? cs
  let cs ← separator? ':' (Text.trimStart cs)
  let (minute, cs) ← field? cs
  let cs ← separator? ':' (Text.trimStart cs)
  let (second, cs) ← field? cs
  let (nanos, cs) ← fraction? cs
  let (offset, cs) ← lenientZone? (Text.trimStart cs)
  if Text.trimStart cs = [] then ofLocal? ⟨year, month, day⟩ hour minute second nanos offset
  else none

end GribCatalog.Instant
