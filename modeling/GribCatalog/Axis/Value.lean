import GribCatalog.Binary64.Shortest
import GribCatalog.Calendar.Instant

/-!
Values on an axis, and their order. Values of one variant are ordered by what they mean: periods by
their end and then their start, levels by type and then value, control members before perturbed
ones.
-/

namespace GribCatalog

structure Period where
  start : Int64
  stop : Int64
deriving DecidableEq, Repr

/-- Length of a period, modulo the word's width. -/
def Period.length (p : Period) : Int64 :=
  p.stop - p.start

def Period.length? (p : Period) : Option Int64 :=
  if p.length.toInt = p.stop.toInt - p.start.toInt then some p.length else none

instance : Ord Period :=
  ⟨fun a b => (compare a.stop b.stop).then (compare a.start b.start)⟩

/-- A type of surface and a value on it. The value is a number, and its zero is positive, so that
equal levels have equal words. -/
structure Level where
  kind : UInt8
  value : Binary64
  isNumber : value.isNaN = false
  zeroIsPositive : value.unsignedZero = value
deriving DecidableEq

theorem Binary64.isNaN_unsignedZero {x : Binary64} (h : x.isNaN = false) :
    x.unsignedZero.isNaN = false := by
  unfold unsignedZero
  split
  · decide
  · exact h

theorem Binary64.unsignedZero_unsignedZero (x : Binary64) :
    x.unsignedZero.unsignedZero = x.unsignedZero := by
  by_cases h : x.isZero <;> simp [unsignedZero, h]

namespace Level

/-- The level of a type and a value, unless the value is not a number. -/
def mk? (kind : UInt8) (value : Binary64) : Option Level :=
  if h : value.isNaN = false then
    some ⟨kind, value.unsignedZero, Binary64.isNaN_unsignedZero h,
      Binary64.unsignedZero_unsignedZero value⟩
  else none

instance : Ord Level :=
  ⟨fun a b => (compare a.kind b.kind).then (compare a.value.rank b.value.rank)⟩

end Level

structure Member where
  kind : UInt8
  number : UInt16
deriving DecidableEq, Repr

namespace Member

def isControl (m : Member) : Bool :=
  m.kind ≤ 1

instance : Ord Member :=
  ⟨fun a b => (compare b.isControl a.isControl).then
    ((compare a.number b.number).then (compare a.kind b.kind))⟩

end Member

inductive AxisValue
  /-- Offset in whole units of the axis. -/
  | offset (n : Int64)
  | period (p : Period)
  | runtime (t : Instant)
  | level (l : Level)
  | member (m : Member)
  | integer (n : Int64)
  | text (s : String)
deriving DecidableEq

namespace AxisValue

def variant : AxisValue → Nat
  | offset _ => 0
  | period _ => 1
  | runtime _ => 2
  | level _ => 3
  | member _ => 4
  | integer _ => 5
  | text _ => 6

/-- The order of values: by variant, and by meaning within one. -/
def order : AxisValue → AxisValue → Ordering
  | offset a, offset b => compare a b
  | period a, period b => compare a b
  | runtime a, runtime b => compare a b
  | level a, level b => compare a b
  | member a, member b => compare a b
  | integer a, integer b => compare a b
  | text a, text b => compare a b
  | a, b => compare a.variant b.variant

instance : Ord AxisValue := ⟨order⟩

def ofSurface? (kind : UInt8) (value : Binary64) : Option AxisValue :=
  (Level.mk? kind value).map level

def offset? : AxisValue → Option Int64
  | offset n => some n
  | _ => none

def level? : AxisValue → Option Level
  | level l => some l
  | _ => none

def chars : AxisValue → List Char
  | offset n => Text.integerDigits n.toInt
  | period p => Text.integerDigits p.start.toInt ++ '-' :: Text.integerDigits p.stop.toInt
  | runtime t => t.text
  | level l => Text.digits l.kind.toNat ++ ':' :: l.value.text .plain
  | member m => Text.digits m.kind.toNat ++ '/' :: Text.digits m.number.toNat
  | integer n => Text.integerDigits n.toInt
  | text s => s.toList

def display (v : AxisValue) : String :=
  String.ofList v.chars

end AxisValue

end GribCatalog
