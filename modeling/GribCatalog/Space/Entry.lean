import GribCatalog.Space.Options

/-!
Records of a space: where their bytes are, where they stood in the stream, and their indices.
-/

namespace GribCatalog

structure Location where
  file : UInt32
  offset : Nat
  length : Nat
  /-- Number of the field in its message. -/
  field : UInt16
deriving DecidableEq, Repr

class Located (ρ : Type) where
  location : ρ → Location

/-- The position `count` places after another where sums are not checked: the last position is
followed by the first. -/
def positionAfter (position count : Nat) : Nat :=
  (position + count) % wordLimit

structure Entry where
  position : Nat
  location : Location
  indices : List Nat
deriving DecidableEq, Repr

end GribCatalog
