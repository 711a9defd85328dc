/-!
What became of the records that a space was built from.
-/

namespace GribCatalog

structure Skip where
  position : Nat
  dimension : String
  reason : String
deriving DecidableEq, Repr

structure Miss where
  position : Nat
  dimension : String
  value : String
deriving DecidableEq, Repr

structure Duplicate where
  indices : List Nat
  positions : List Nat
deriving DecidableEq, Repr

structure Report where
  seen : Nat := 0
  indexed : Nat := 0
  skipped : List Skip := []
  misses : List Miss := []
  duplicates : List Duplicate := []
deriving DecidableEq, Repr

namespace Report

def isClean (r : Report) : Bool :=
  r.skipped.isEmpty && r.misses.isEmpty && r.duplicates.isEmpty

def skippedRecords (r : Report) : Nat :=
  (r.skipped.map (·.position)).eraseDups.length

def text (r : Report) : String :=
  s!"{r.seen} records seen, {r.indexed} indexed, {r.skippedRecords} skipped, " ++
    s!"{r.misses.length} lookup misses, {r.duplicates.length} duplicate cells"

end Report

end GribCatalog
