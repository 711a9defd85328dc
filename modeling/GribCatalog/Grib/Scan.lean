import GribCatalog.Grib.Message

/-!
Scanning a stream of messages with anything between them. A message that is broken before its end is
found costs the bytes of its magic, so that scanning goes on inside of it; a whole message or one of
another edition is passed over by its length.
-/

namespace GribCatalog

inductive Frame
  | broken (fault : ScanFault)
  | otherEdition (fault : ScanFault) (length : Nat)
  | message (indicator : Indicator)
deriving Repr

namespace Frame

def leastLength : Nat := 8

def ofBytes (offset : Nat) (bs : Bytes) : Frame :=
  match Indicator.read offset bs with
  | .error fault => broken fault
  | .ok indicator =>
    if indicator.length < leastLength then
      broken (.frame offset (.implausibleLength indicator.length))
    else if bs.length < indicator.length then
      broken (.truncated offset indicator.length bs.length)
    else if indicator.edition ≠ 2 then
      otherEdition (.edition indicator.edition offset) indicator.length
    else if bs.slice (indicator.length - 4) 4 ≠ Section.endMarker then
      broken (.frame offset .noEndMarker)
    else message indicator

def length : Frame → Nat
  | broken _ => 4
  | otherEdition _ length => length
  | message indicator => indicator.length

def items (file : UInt32) (offset : Nat) (bs : Bytes) : Frame → List ScanItem
  | broken fault => [.error fault]
  | otherEdition fault _ => [.error fault]
  | message indicator =>
    match Message.fields file offset indicator (bs.take indicator.length) with
    | .error fault => [.error fault]
    | .ok fields => fields

theorem length_pos (offset : Nat) (bs : Bytes) : 0 < (ofBytes offset bs).length := by
  unfold ofBytes
  repeat' split
  all_goals simp only [Frame.length, leastLength] at *
  all_goals omega

end Frame

theorem Bytes.seek?_length {pat : Bytes} {skipped k : Nat} {bs rest : Bytes}
    (h : Bytes.seek? pat skipped bs = some (k, rest)) :
    0 < rest.length ∧ rest.length ≤ bs.length := by
  induction bs generalizing skipped with
  | nil => simp [Bytes.seek?] at h
  | cons b bs ih =>
    rw [Bytes.seek?] at h
    split at h
    · simp at h
      simp [← h.2]
    · have := ih h
      simp
      omega

def scanFrom (file : UInt32) (offset : Nat) (bs : Bytes) : List ScanItem :=
  match _h : Bytes.seek? Indicator.magic 0 bs with
  | none => []
  | some (skipped, rest) =>
    let start := offset + skipped
    let frame := Frame.ofBytes start rest
    frame.items file start rest ++ scanFrom file (start + frame.length) (rest.drop frame.length)
termination_by bs.length
decreasing_by
  have := Bytes.seek?_length _h
  have := Frame.length_pos (offset + skipped) rest
  simp
  omega

/-- The fields and faults of a file, in the order of its bytes. -/
def scan (file : UInt32) (bs : Bytes) : List ScanItem :=
  scanFrom file 0 bs

namespace ScanItem

def fields (items : List ScanItem) : List Field :=
  items.filterMap fun
    | .ok f => some f
    | .error _ => none

def faults (items : List ScanItem) : List ScanFault :=
  items.filterMap fun
    | .ok _ => none
    | .error e => some e

end ScanItem

end GribCatalog
