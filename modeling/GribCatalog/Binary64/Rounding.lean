import GribCatalog.Binary64.Basic

/-!
Rounding of exact quotients to binary64, to the nearest number and to the even one of two equally
near, and the arithmetic that rounds an exact result once.
-/

namespace GribCatalog

/-- The whole number nearest to `num / den`, the even one of two equally near. -/
def nearestEven (num den : Nat) : Nat :=
  let q := num / den
  let r := num % den
  if 2 * r < den then q
  else if den < 2 * r then q + 1
  else q + q % 2

namespace Binary64

/-- Magnitude of `num / den`. A quotient of at least `2 ^ (52 + k)` units keeps 53 bits, the rest
keeps every unit. -/
def roundMagnitude (num den : Nat) : Nat :=
  let scaled := num * Nat.pow 2 1074
  let k := Nat.log2 (scaled / den) - 52
  min infinite (k * Nat.pow 2 52 + nearestEven scaled (den * Nat.pow 2 k))

def ofRatio (negative : Bool) (num den : Nat) : Binary64 :=
  ofMagnitude negative (roundMagnitude num den)

def ofNat (n : Nat) : Binary64 :=
  ofRatio false n 1

def ofInt (n : Int) : Binary64 :=
  ofRatio (n < 0) n.natAbs 1

def mul (x y : Binary64) : Binary64 :=
  let negative := x.isNegative != y.isNegative
  if x.isNaN || y.isNaN then nan
  else if x.isInfinite || y.isInfinite then
    if x.isZero || y.isZero then nan else ofMagnitude negative infinite
  else ofRatio negative (units x.magnitude * units y.magnitude) (Nat.pow 2 1074 * Nat.pow 2 1074)

def div (x y : Binary64) : Binary64 :=
  let negative := x.isNegative != y.isNegative
  if x.isNaN || y.isNaN then nan
  else if x.isInfinite then if y.isInfinite then nan else ofMagnitude negative infinite
  else if y.isInfinite then ofMagnitude negative 0
  else if y.isZero then if x.isZero then nan else ofMagnitude negative infinite
  else ofRatio negative (units x.magnitude) (units y.magnitude)

/-- Multiplies `product` by a power of `square` for every binary digit of `n`, from the lowest to the
highest. The next power is the square of the last, and every product is rounded. -/
def powerFrom : Nat → Binary64 → Binary64 → Nat → Binary64
  | 0, _, product, _ => product
  | digits + 1, square, product, n =>
    let product := if n % 2 = 1 then product.mul square else product
    if n / 2 = 0 then product else powerFrom digits (square.mul square) product (n / 2)

/-- `x ^ n` for an exponent of 32 bits. -/
def power (x : Binary64) (n : Nat) : Binary64 :=
  powerFrom 32 x (ofNat 1) n

def toInt? (x : Binary64) : Option Int :=
  let u := units x.magnitude
  if x.isFinite && u % Nat.pow 2 1074 == 0 then
    let n : Int := (u / Nat.pow 2 1074 : Nat)
    some (if x.isNegative then -n else n)
  else none

end Binary64

end GribCatalog
