import GribCatalog.Space.Entry
import GribCatalog.Space.Report

/-!
Occupied cells of a space. The winner of a cell is settled as its entries come; with distinct
positions it does not depend on their order.
-/

namespace GribCatalog

structure Cell where
  indices : List Nat
  winner : Entry
  /-- Positions of all its entries, as they came. -/
  positions : List Nat
deriving DecidableEq, Repr

namespace Cell

def share (policy : DuplicatePolicy) (c : Cell) (e : Entry) : Cell :=
  { c with
    winner := if policy.replaces c.winner.position e.position then e else c.winner
    positions := c.positions ++ [e.position] }

def place (policy : DuplicatePolicy) : List Cell → Entry → List Cell
  | [], e => [⟨e.indices, e, [e.position]⟩]
  | c :: cs, e =>
    if c.indices = e.indices then c.share policy e :: cs else c :: place policy cs e

def ofEntries (policy : DuplicatePolicy) (entries : List Entry) : List Cell :=
  entries.foldl (place policy) []

def duplicate? (c : Cell) : Option Duplicate :=
  if 2 ≤ c.positions.length then some ⟨c.indices, c.positions.mergeSort⟩ else none

end Cell

/-- Order of duplicates: by first position, and by indices where positions are repeated. -/
def Duplicate.le (a b : Duplicate) : Bool :=
  let first (d : Duplicate) := d.positions.headD 0
  first a < first b || (first a == first b && !decide (b.indices < a.indices))

/-- The duplicates of some cells, in the order of their first positions. -/
def Cell.duplicates (cells : List Cell) : List Duplicate :=
  (cells.filterMap duplicate?).mergeSort Duplicate.le

end GribCatalog
