import GribCatalog.Bytes

/-!
The cyclic redundancy check with the reflected polynomial `0xEDB88320`.
-/

namespace GribCatalog.Gzip

/-- Division of eight bits by the polynomial. -/
def checkBits : Nat → UInt32 → UInt32
  | 0, c => c
  | n + 1, c => checkBits n (if c % 2 = 1 then (c / 2) ^^^ 0xEDB88320 else c / 2)

def checkByte (c : UInt32) (b : UInt8) : UInt32 :=
  let low := (c ^^^ b.toUInt32) % 256
  checkBits 8 low ^^^ (c / 256)

def checksum (bs : Bytes) : UInt32 :=
  bs.foldl checkByte 0xFFFFFFFF ^^^ 0xFFFFFFFF

end GribCatalog.Gzip
