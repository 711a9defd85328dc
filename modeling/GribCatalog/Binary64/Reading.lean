import GribCatalog.Binary64.Rounding
import GribCatalog.Text.Numeral

/-!
Decimal numerals with a fraction and an exponent, read as the nearest binary64 number.
-/

namespace GribCatalog.Binary64

/-- Magnitude nearest to `coefficient * 10 ^ exponent`. A number of more than 400 digits before the
point is beyond every finite one, and one with 400 zeros after it is below every one but zero. -/
def magnitudeOfDecimal (coefficient : Nat) (exponent : Int) : Nat :=
  let point := (Text.digits coefficient).length + exponent
  if coefficient = 0 || point < -400 then 0
  else if 400 < point then infinite
  else if 0 ≤ exponent then roundMagnitude (coefficient * Nat.pow 10 exponent.toNat) 1
  else roundMagnitude coefficient (Nat.pow 10 exponent.natAbs)

structure Numeral where
  coefficient : Nat
  exponent : Int
  isInteger : Bool

/-- The exponent after a number's digits: nothing, or an `e` with a signed numeral. -/
def exponentPart? : List Char → Option (Option Int)
  | [] => some none
  | c :: cs => if c = 'e' || c = 'E' then (Text.integer? cs).map some else none

/-- Reads an unsigned numeral with at least one digit on either side of its point. -/
def numeral? (cs : List Char) : Option Numeral := do
  let whole := cs.takeWhile Char.isDigit
  let rest := cs.dropWhile Char.isDigit
  let (fraction, rest, pointed) :=
    match rest with
    | '.' :: rest => (rest.takeWhile Char.isDigit, rest.dropWhile Char.isDigit, true)
    | rest => ([], rest, false)
  if whole = [] && fraction = [] then none
  let exponent ← exponentPart? rest
  some {
    coefficient := Nat.ofDigitChars 10 (whole ++ fraction) 0
    exponent := exponent.getD 0 - fraction.length
    isInteger := !pointed && exponent.isNone }

def special? (cs : List Char) : Option Binary64 :=
  match String.ofList (cs.map Char.toLower) with
  | "inf" | "infinity" => some infinity
  | "nan" => some nan
  | _ => none

def withSign (negative : Bool) (x : Binary64) : Binary64 :=
  ofMagnitude negative x.magnitude

def unsigned? (cs : List Char) : Option Binary64 :=
  match numeral? cs with
  | some n => some (ofMagnitude false (magnitudeOfDecimal n.coefficient n.exponent))
  | none => special? cs

/-- Reads an optional sign and a numeral, `inf`, `infinity` or `nan` in any case. -/
def read? : List Char → Option Binary64
  | '+' :: cs => unsigned? cs
  | '-' :: cs => (unsigned? cs).map (withSign true)
  | cs => unsigned? cs

end GribCatalog.Binary64
