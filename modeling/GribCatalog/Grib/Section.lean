import GribCatalog.Bytes
import GribCatalog.Grib.Fault

/-!
Sections of a message. Each starts with its length in four bytes and its number in one, the next one
follows it, and the end marker follows the last.
-/

namespace GribCatalog

structure Section where
  number : UInt8
  offset : Nat
  bytes : Bytes
deriving DecidableEq, Repr

namespace Section

def indicatorLength : Nat := 16

def endMarker : Bytes := [0x37, 0x37, 0x37, 0x37]

/-- Compares the length of what is left of a message with a bound, without going beyond the bound:
a walk asks for it at every section. -/
local instance (rest : Bytes) (bound : Nat) : Decidable (rest.length < bound) :=
  match bound with
  | 0 => .isFalse (Nat.not_lt_zero _)
  | n + 1 => decidable_of_iff (rest.drop n = []) (by rw [List.drop_eq_nil_iff, Nat.lt_succ_iff])

/-- The sections from byte `offset` of a message on, where `rest` starts, up to the end marker. -/
def chain (offset : Nat) (rest : Bytes) : Except ScanFault (List Section) :=
  if rest.take 4 = endMarker then .ok []
  else if rest.length < 5 then .error (.inSection 8 .noEndMarker)
  else
    let length := rest.wordAt 0 4
    let number := rest.byteAt 4
    if _h : length < 5 ∨ rest.length < length then
      .error (.inSection number (.badLength length offset))
    else
      (chain (offset + length) (rest.drop length)).map (⟨number, offset, rest.take length⟩ :: ·)
termination_by rest.length
decreasing_by
  simp only [List.length_drop]
  omega

def ofMessage (message : Bytes) : Except ScanFault (List Section) :=
  chain indicatorLength (message.drop indicatorLength)

def withNumber (number : UInt8) (sections : List Section) : Except ScanFault Section :=
  match sections.find? (·.number = number) with
  | some s => .ok s
  | none => .error (.inSection number .notFound)

end Section

end GribCatalog
