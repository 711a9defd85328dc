/-!
Numbers of the IEEE 754 format binary64, kept as their words. A word without its sign bit is the
number's magnitude: magnitudes are ordered as the numbers are, and every finite one stands for a
whole count of `2 ^ -1074`.
-/

namespace GribCatalog

structure Binary64 where
  word : UInt64
deriving DecidableEq, Repr

namespace Binary64

/-- The magnitude of infinity. Everything above it is not a number. -/
def infinite : Nat := 2047 * Nat.pow 2 52

def isNegative (x : Binary64) : Bool :=
  Nat.pow 2 63 ≤ x.word.toNat

def magnitude (x : Binary64) : Nat :=
  x.word.toNat % Nat.pow 2 63

def ofMagnitude (negative : Bool) (m : Nat) : Binary64 :=
  ⟨UInt64.ofNat (if negative then Nat.pow 2 63 + m else m)⟩

def zero : Binary64 := ⟨0⟩

def infinity : Binary64 := ofMagnitude false infinite

def nan : Binary64 := ofMagnitude false (infinite + Nat.pow 2 51)

def isNaN (x : Binary64) : Bool :=
  infinite < x.magnitude

def isInfinite (x : Binary64) : Bool :=
  x.magnitude = infinite

def isFinite (x : Binary64) : Bool :=
  x.magnitude < infinite

def isZero (x : Binary64) : Bool :=
  x.magnitude = 0

/-- Count of `2 ^ -1074` that a finite magnitude stands for. -/
def units (m : Nat) : Nat :=
  if m < Nat.pow 2 52 then m
  else (Nat.pow 2 52 + m % Nat.pow 2 52) * Nat.pow 2 (m / Nat.pow 2 52 - 1)

/-- Position in the total order of all words: numbers by value, the negative zero below the
positive. -/
def rank (x : Binary64) : Int :=
  if x.isNegative then -(x.magnitude : Int) - 1 else x.magnitude

/-- The same number, with zero made positive. -/
def unsignedZero (x : Binary64) : Binary64 :=
  if x.isZero then zero else x

end Binary64

end GribCatalog
