import GribCatalog.Grib.Section

/-!
The indicator at the start of a message. In edition 1 the length has three bytes and there is no
discipline.
-/

namespace GribCatalog

structure Indicator where
  discipline : UInt8
  edition : UInt8
  length : Nat
deriving DecidableEq, Repr

namespace Indicator

def magic : Bytes := [0x47, 0x52, 0x49, 0x42]

/-- Reads the indicator at the start of `bs`, which is byte `offset` of its file. -/
def read (offset : Nat) (bs : Bytes) : Except ScanFault Indicator :=
  if bs.length < 8 then .error (.frame offset .shortIndicator)
  else if bs.take 4 ≠ magic then .error (.frame offset .wrongMagic)
  else if bs.byteAt 7 = 1 then .ok ⟨0, 1, bs.wordAt 4 3⟩
  else if bs.byteAt 7 = 2 then
    if bs.length < Section.indicatorLength then .error (.frame offset .shortIndicator)
    else .ok ⟨bs.byteAt 6, 2, bs.wordAt 8 8⟩
  else .error (.edition (bs.byteAt 7) offset)

end Indicator

end GribCatalog
