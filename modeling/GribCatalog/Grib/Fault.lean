/-!
What can be wrong with a stream of messages, and the words for it.
-/

namespace GribCatalog

inductive FrameFault
  | shortIndicator
  | wrongMagic
  | implausibleLength (length : Nat)
  | noEndMarker
  | shorterThanIndicator
deriving DecidableEq, Repr

inductive SectionFault
  | noEndMarker
  | badLength (length offset : Nat)
  | notFound
  | tooShort
  | referenceTime (year month day hour minute second : Nat)
  | shortTemplate (template needed length : Nat)
  | noProduct
deriving DecidableEq, Repr

inductive ScanFault
  | frame (offset : Nat) (fault : FrameFault)
  | inSection (number : UInt8) (fault : SectionFault)
  | edition (edition : UInt8) (offset : Nat)
  | template (template : Nat)
  | timeUnit (code : UInt8)
  | truncated (offset declared available : Nat)
deriving DecidableEq, Repr

def FrameFault.message : FrameFault → String
  | .shortIndicator => "not enough data for indicator section"
  | .wrongMagic => "invalid GRIB magic bytes"
  | .implausibleLength length => s!"implausible length {length}"
  | .noEndMarker => "missing end marker"
  | .shorterThanIndicator => "message shorter than indicator"

def twoDigits (n : Nat) : String :=
  if n < 10 then s!"0{n}" else s!"{n}"

def SectionFault.message : SectionFault → String
  | .noEndMarker => "end marker not found"
  | .badLength length offset => s!"invalid section length {length} at byte {offset}"
  | .notFound => "section not found"
  | .tooShort => "not enough data"
  | .referenceTime year month day hour minute second =>
    s!"invalid reference time: {year}-{twoDigits month}-{twoDigits day} " ++
      s!"{twoDigits hour}:{twoDigits minute}:{twoDigits second}"
  | .shortTemplate template needed length =>
    s!"template 4.{template} needs {needed} bytes, got {length}"
  | .noProduct => "message has no product definition"

def ScanFault.message : ScanFault → String
  | .frame offset fault => s!"invalid GRIB2 format at offset {offset}: {fault.message}"
  | .inSection number fault => s!"invalid section {number}: {fault.message}"
  | .edition number offset => s!"unsupported GRIB edition {number} at offset {offset}"
  | .template number => s!"unsupported product definition template 4.{number}"
  | .timeUnit code => s!"unsupported time range unit {code} (code table 4.4)"
  | .truncated offset declared available =>
    s!"message at offset {offset} declares {declared} bytes but only {available} remain"

end GribCatalog
