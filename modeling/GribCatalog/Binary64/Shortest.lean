import GribCatalog.Binary64.Rounding
import GribCatalog.Text.Numeral

/-!
Decimal text of binary64 numbers: the fewest digits that read back, the nearest of those to the
number, and a fixed count of places.
-/

namespace GribCatalog.Binary64

structure Style where
  /-- Of two decimals equally near take the greater, instead of the one with an even last digit. -/
  tieUp : Bool
  /-- Whether digits with the decimal point before their first one and moved by this many places are
  written without an exponent. -/
  positional : Int → Bool
  /-- What follows the digits of a whole number. -/
  whole : List Char

/-- Never an exponent, and no point after a whole number. -/
def Style.plain : Style := ⟨true, fun _ => true, []⟩

/-- Count of `10 ^ -1074` that a finite magnitude stands for. -/
def decimalUnits (m : Nat) : Nat :=
  units m * Nat.pow 5 1074

/-- The two whole numbers around `num / den`, the preferred one first. -/
def neighbours (tieUp : Bool) (num den : Nat) : List Nat :=
  let q := num / den
  let r := num % den
  if 2 * r < den || (2 * r == den && !tieUp && q % 2 == 0) then [q, q + 1] else [q + 1, q]

/-- Whether `c * 10 ^ u` of the units `10 ^ -1074` round to magnitude `m`. -/
def roundsTo (m c u : Nat) : Bool :=
  roundMagnitude (c * Nat.pow 10 u) (Nat.pow 10 1074) = m

/-- Coefficient and exponent, in units of `10 ^ -1074`, of the shortest decimal that rounds to `m`.
All digits of the number serve where no 17 do. -/
def shortestUnits (tieUp : Bool) (m : Nat) : Nat × Nat :=
  let exact := decimalUnits m
  let len := (Text.digits exact).length
  let found := (List.range 17).findSome? fun i =>
    let u := len - (i + 1)
    ((neighbours tieUp exact (Nat.pow 10 u)).find? fun c => roundsTo m c u).map fun c => (c, u)
  found.getD (exact, 0)

def significant (ds : List Char) : List Char :=
  (ds.reverse.dropWhile (· == '0')).reverse

/-- Significant digits `d₁d₂…` and point `p`, for the number `0.d₁d₂… * 10 ^ p`. -/
def shortest (tieUp : Bool) (m : Nat) : List Char × Int :=
  let best := shortestUnits tieUp m
  let ds := Text.digits best.1
  (significant ds, (ds.length + best.2 : Nat) - 1074)

def positionalText (style : Style) (ds : List Char) (point : Int) : List Char :=
  if point ≤ 0 then '0' :: '.' :: List.replicate point.natAbs '0' ++ ds
  else if (ds.length : Int) ≤ point then
    ds ++ List.replicate (point.toNat - ds.length) '0' ++ style.whole
  else ds.take point.toNat ++ '.' :: ds.drop point.toNat

def exponentText (ds : List Char) (point : Int) : List Char :=
  let mantissa :=
    match ds with
    | d :: e :: ds => d :: '.' :: e :: ds
    | ds => ds
  let sign := if point - 1 < 0 then '-' else '+'
  mantissa ++ 'e' :: sign :: Text.digits (point - 1).natAbs

def magnitudeText (style : Style) (m : Nat) : List Char :=
  if m = 0 then '0' :: style.whole
  else
    let best := shortest style.tieUp m
    if style.positional best.2 then positionalText style best.1 best.2
    else exponentText best.1 best.2

def text (style : Style) (x : Binary64) : List Char :=
  if x.isNaN then "NaN".toList
  else
    (if x.isNegative then ['-'] else []) ++
      if x.isInfinite then "inf".toList else magnitudeText style x.magnitude

/-- Text with `places` decimals, of two equally near the one with an even last digit. -/
def fixedText (places : Nat) (x : Binary64) : List Char :=
  let n := nearestEven (units x.magnitude * Nat.pow 10 places) (Nat.pow 2 1074)
  (if x.isNegative then ['-'] else []) ++ Text.digits (n / Nat.pow 10 places) ++
    '.' :: Text.padded places (n % Nat.pow 10 places)

/-- A whole number of less than 16 digits is written as an integer, any other in full. -/
def numberText (x : Binary64) : List Char :=
  match x.toInt? with
  | some n => if n.natAbs < Nat.pow 10 15 then Text.integerDigits n else x.text .plain
  | none => x.text .plain

end GribCatalog.Binary64
