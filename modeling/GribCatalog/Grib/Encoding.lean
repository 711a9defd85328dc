import GribCatalog.Grib.Indicator

/-!
Writing messages. A message written here holds what its specification says and dummy data: a grid of
two by two points, all of one value.
-/

namespace GribCatalog

structure FieldSpec where
  category : UInt8 := 0
  number : UInt8 := 0
  /-- Entry of code table 4.4. -/
  timeUnit : UInt8 := 1
  forecastTime : UInt32 := 0
  levelType : UInt8 := 103
  levelScale : Int8 := 0
  levelValue : Int32 := 2
  /-- Type, perturbation number and size of the ensemble. -/
  ensemble : Option (UInt8 × UInt8 × UInt8) := none
  /-- Unit and length of the time range. -/
  interval : Option (UInt8 × UInt32) := none
deriving DecidableEq, Repr

structure MessageSpec where
  discipline : UInt8 := 0
  edition : UInt8 := 2
  centre : UInt16 := 7
  year : UInt16 := 2025
  month : UInt8 := 12
  day : UInt8 := 10
  hour : UInt8 := 12
  minute : UInt8 := 0
  first : FieldSpec := {}
  more : List FieldSpec := []
deriving DecidableEq, Repr

def encodeSignMagnitude (n : Int32) : Bytes :=
  let magnitude := n.toInt.natAbs % Nat.pow 2 31
  Bytes.ofWord 4 (if n.toInt < 0 then Nat.pow 2 31 + magnitude else magnitude)

def encodeSignMagnitudeOctet (n : Int8) : UInt8 :=
  let magnitude := n.toInt.natAbs % Nat.pow 2 7
  UInt8.ofNat (if n.toInt < 0 then Nat.pow 2 7 + magnitude else magnitude)

def encodeSection (number : UInt8) (contents : Bytes) : Bytes :=
  Bytes.ofWord 4 (contents.length + 5) ++ number :: contents

namespace FieldSpec

def template (f : FieldSpec) : Nat :=
  match f.ensemble, f.interval with
  | none, none => 0
  | some _, none => 1
  | none, some _ => 8
  | some _, some _ => 11

def ensembleBytes (f : FieldSpec) : Bytes :=
  match f.ensemble with
  | some (kind, perturbation, size) => [kind, perturbation, size]
  | none => []

/-- End of the time range, one range of an accumulation, and its unit and length. -/
def intervalBytes (f : FieldSpec) : Bytes :=
  match f.interval with
  | some (unit, length) =>
    Bytes.ofWord 2 2025 ++ [12, 10, 18, 0, 0] ++ [1] ++ Bytes.ofWord 4 0 ++ [1, 2, unit] ++
      Bytes.ofWord 4 length.toNat ++ [255] ++ Bytes.ofWord 4 0
  | none => []

def productBytes (f : FieldSpec) : Bytes :=
  encodeSection 4 (Bytes.ofWord 2 0 ++ Bytes.ofWord 2 f.template ++ [f.category, f.number] ++
    [2, 0, 0] ++ Bytes.ofWord 2 0 ++ [0] ++ [f.timeUnit] ++ Bytes.ofWord 4 f.forecastTime.toNat ++
    [f.levelType, encodeSignMagnitudeOctet f.levelScale] ++ encodeSignMagnitude f.levelValue ++
    [255, 0] ++ Bytes.ofWord 4 0 ++ f.ensembleBytes ++ f.intervalBytes)

/-- Representation of four points of one value, no bit map, no data. -/
def dataBytes : Bytes :=
  encodeSection 5 (Bytes.ofWord 4 4 ++ Bytes.ofWord 2 0 ++ [0x43, 0x90, 0x13, 0x33] ++
    Bytes.ofWord 2 0 ++ Bytes.ofWord 2 0 ++ [0, 0]) ++
  encodeSection 6 [255] ++ encodeSection 7 []

def bytes (f : FieldSpec) : Bytes :=
  f.productBytes ++ dataBytes

end FieldSpec

namespace MessageSpec

def fields (m : MessageSpec) : List FieldSpec :=
  m.first :: m.more

def identificationBytes (m : MessageSpec) : Bytes :=
  encodeSection 1 (Bytes.ofWord 2 m.centre.toNat ++ Bytes.ofWord 2 0 ++ [2, 1, 1] ++
    Bytes.ofWord 2 m.year.toNat ++ [m.month, m.day, m.hour, m.minute, 0] ++ [0, 1])

def gridBytes : Bytes :=
  encodeSection 3 ([0] ++ Bytes.ofWord 4 4 ++ [0, 0] ++ Bytes.ofWord 2 0 ++ List.replicate 58 0)

def sectionBytes (m : MessageSpec) : Bytes :=
  m.identificationBytes ++ gridBytes ++ m.fields.flatMap FieldSpec.bytes

def bytes (m : MessageSpec) : Bytes :=
  Indicator.magic ++ [0, 0, m.discipline, m.edition] ++
    Bytes.ofWord 8 (Section.indicatorLength + m.sectionBytes.length + 4) ++
    m.sectionBytes ++ Section.endMarker

end MessageSpec

def encodeMessages (messages : List MessageSpec) : Bytes :=
  messages.flatMap MessageSpec.bytes

end GribCatalog
