import GribCatalog.Calendar.Instant
import GribCatalog.Grib.Section

/-!
The identification section: who made the message, and the reference time of its forecasts.
-/

namespace GribCatalog

structure Identification where
  centre : UInt16
  subCentre : UInt16
  /-- What the reference time is the time of. -/
  significance : UInt8
  referenceTime : Instant
deriving DecidableEq, Repr

namespace Identification

def read (bs : Bytes) : Except ScanFault Identification :=
  if bs.length < 19 then .error (.inSection 1 .tooShort)
  else
    let year := bs.wordAt 12 2
    let part (i : Nat) := (bs.byteAt i).toNat
    match Instant.ofCivil? ⟨year, part 14, part 15⟩ (part 16) (part 17) (part 18) with
    | none =>
      .error (.inSection 1
        (.referenceTime year (part 14) (part 15) (part 16) (part 17) (part 18)))
    | some time =>
      .ok ⟨UInt16.ofNat (bs.wordAt 5 2), UInt16.ofNat (bs.wordAt 7 2), bs.byteAt 11, time⟩

end Identification

end GribCatalog
