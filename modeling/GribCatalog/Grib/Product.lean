import GribCatalog.Binary64.Rounding
import GribCatalog.Grib.Field
import GribCatalog.Grib.Section
import GribCatalog.Grib.TimeUnit

/-!
The product definition section of a field, for four of its templates: a forecast at a point in time,
one member of an ensemble of such forecasts, and either of them processed over a time range.
-/

namespace GribCatalog

structure Product where
  template : Nat
  category : UInt8
  number : UInt8
  forecast : Forecast
  level : Option Surface
  ensemble : Option EnsembleForecast
deriving DecidableEq, Repr

/-- A four byte integer whose highest bit is its sign; any other count of bytes is zero. -/
def signMagnitude (bs : Bytes) : Int :=
  if bs.length ≠ 4 then 0
  else
    let n := bs.word
    if Nat.pow 2 31 ≤ n then -((n - Nat.pow 2 31 : Nat) : Int) else n

def signMagnitudeOctet (b : UInt8) : Int :=
  if 128 ≤ b.toNat then -((b.toNat - 128 : Nat) : Int) else b.toNat

namespace Surface

/-- `scaled * 10 ^ -factor`, rounded once where the power of ten is exact. -/
def scaledValue (factor scaled : Int) : Binary64 :=
  let power := (Binary64.ofNat 10).power factor.natAbs
  if 0 ≤ factor then (Binary64.ofInt scaled).div power else (Binary64.ofInt scaled).mul power

/-- A surface from its type, scale factor and four bytes of scaled value. Type 255 is no surface; a
value of all ones is missing and counts as zero. -/
def decode? (kind scale : UInt8) (scaled : Bytes) : Option Surface :=
  if kind = 255 then none
  else if scale = 255 ∧ scaled.all (· = 255) then some ⟨kind, Binary64.zero⟩
  else some ⟨kind, scaledValue (signMagnitudeOctet scale) (signMagnitude scaled)⟩

end Surface

namespace Product

def templateLength? : Nat → Option Nat
  | 0 => some 34
  | 1 => some 37
  | 8 => some 58
  | 11 => some 61
  | _ => none

/-- First byte of the first time range of a template that has one. -/
def rangeStart? : Nat → Option Nat
  | 8 => some 46
  | 11 => some 49
  | _ => none

def duration (bs : Bytes) (unitAt countAt : Nat) : Except ScanFault Nat :=
  (TimeUnit.ofCode (bs.byteAt unitAt)).map fun unit => bs.wordAt countAt 4 * unit.seconds

def readForecast (template : Nat) (bs : Bytes) : Except ScanFault Forecast :=
  match duration bs 17 18 with
  | .error e => .error e
  | .ok offset =>
    match rangeStart? template with
    | none => .ok (.instant offset)
    | some start =>
      (duration bs (start + 2) (start + 3)).map fun range =>
        .interval offset (offset + range : Nat)

def readEnsemble? (template : Nat) (bs : Bytes) : Option EnsembleForecast :=
  if template = 1 ∨ template = 11 then some ⟨bs.byteAt 34, bs.byteAt 35, bs.byteAt 36⟩ else none

def read (bs : Bytes) : Except ScanFault Product :=
  if bs.length < 9 then .error (.inSection 4 .tooShort)
  else
    let template := bs.wordAt 7 2
    match templateLength? template with
    | none => .error (.template template)
    | some needed =>
      if bs.length < needed then
        .error (.inSection 4 (.shortTemplate template needed bs.length))
      else
        (readForecast template bs).map fun forecast => {
          template
          category := bs.byteAt 9
          number := bs.byteAt 10
          forecast
          level := Surface.decode? (bs.byteAt 22) (bs.byteAt 23) (bs.slice 24 4)
          ensemble := readEnsemble? template bs }

end Product

end GribCatalog
