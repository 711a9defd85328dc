import GribCatalog.Axis.Basic
import GribCatalog.Binary64.Rounding
import GribCatalog.Space.Cell

/-!
A space: axes, the records with an index on every axis, and the cells that these occupy.
-/

namespace GribCatalog

structure Space where
  axes : List Axis
  entries : List Entry
  cells : List Cell
  policy : DuplicatePolicy
  /-- Position up to which the stream has been read. -/
  consumed : Nat
deriving DecidableEq

namespace Space

def assemble (axes : List Axis) (entries : List Entry) (policy : DuplicatePolicy)
    (consumed : Nat) : Space :=
  { axes, entries, cells := Cell.ofEntries policy entries, policy, consumed }

def rank (s : Space) : Nat :=
  s.axes.length

def shape (s : Space) : List Nat :=
  s.axes.map Axis.size

def axisNamed? (s : Space) (name : String) : Option (Nat × Axis) :=
  (s.axes.zipIdx.find? fun (a, _) => a.name = name).map fun (a, i) => (i, a)

/-- Product of sizes, as long as no product on the way exceeds a word. -/
def product? (sizes : List Nat) : Option Nat :=
  sizes.foldlM (fun n size => if n * size < wordLimit then some (n * size) else none) 1

def denseSize? (s : Space) : Option Nat :=
  product? s.shape

/-- Share of the cells that are occupied. -/
def density (s : Space) : Binary64 :=
  match s.denseSize? with
  | some 0 => .zero
  | some n => (Binary64.ofNat s.cells.length).div (Binary64.ofNat n)
  | none => .zero

def entryAt? (s : Space) (indices : List Nat) : Option Entry :=
  (s.cells.find? fun c => c.indices = indices).map Cell.winner

def entriesAt (s : Space) (indices : List Nat) : List Entry :=
  s.entries.filter fun e => e.indices = indices

def indicesOf? (s : Space) (values : List AxisValue) : Option (List Nat) :=
  if values.length = s.rank then (values.zip s.axes).mapM fun (v, a) => a.index? v else none

def find? (s : Space) (values : List AxisValue) : Option Entry :=
  (s.indicesOf? values).bind s.entryAt?

/-- The first position that no record had. -/
def nextPosition (s : Space) : Nat :=
  (s.entries.map fun e => positionAfter e.position 1).foldl max s.consumed

end Space

end GribCatalog
