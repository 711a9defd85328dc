import GribCatalog.Bytes

/-!
Bytes read bit by bit, from the lowest bit of each byte on. Reading a bit leaves one less.
-/

namespace GribCatalog.Gzip

structure BitSource where
  /-- Bits left of the byte in hand. -/
  held : List Bool
  rest : Bytes

namespace BitSource

def ofBytes (bs : Bytes) : BitSource :=
  ⟨[], bs⟩

def bitsOf (b : UInt8) : List Bool :=
  (List.range 8).map b.toNat.testBit

def size (s : BitSource) : Nat :=
  s.held.length + 8 * s.rest.length

def bit? : BitSource → Option (Bool × BitSource)
  | ⟨b :: held, rest⟩ => some (b, ⟨held, rest⟩)
  | ⟨[], byte :: rest⟩ =>
    match bitsOf byte with
    | b :: held => some (b, ⟨held, rest⟩)
    | [] => none
  | ⟨[], []⟩ => none

/-- A number of `count` bits, the lowest first. -/
def number? : Nat → BitSource → Option (Nat × BitSource)
  | 0, s => some (0, s)
  | count + 1, s => do
    let (b, s) ← s.bit?
    let (n, s) ← number? count s
    some (2 * n + b.toNat, s)

def bytes (s : BitSource) : Bytes :=
  s.rest

end BitSource

end GribCatalog.Gzip
