import GribCatalog.Axis.Dimension

/-!
What can go wrong with axes and the spaces they span, and the words for it.
-/

namespace GribCatalog

inductive CollectorOp
  | addRecord
  | addValue
  | addAll
  | finish
  | indexOf
  | indexOfValue
deriving DecidableEq, Repr

namespace CollectorOp

def name : CollectorOp → String
  | addRecord => "add_record"
  | addValue => "add_value"
  | addAll => "add_all"
  | finish => "finish"
  | indexOf => "index_of"
  | indexOfValue => "index_of_value"

/-- Whether it is asked of an axis that is finished. -/
def isQuery : CollectorOp → Bool
  | indexOf => true
  | indexOfValue => true
  | _ => false

end CollectorOp

inductive SnapshotFault
  | noAxes
  | repeatedValue (axis : String)
  | arity (position found expected : Nat)
  | outOfRange (position index axis size : Nat)
  | unresolved (position : Nat)
deriving DecidableEq, Repr

inductive IndexFault
  | phase (dimension : String) (op : CollectorOp)
  | extraction (dimension : String) (fault : ExtractFault)
  | mismatch (expected found : AxisKind)
  | arity (expected found : Nat)
  | noDimensions
  | order (axes : List Nat) (rank : Nat)
  | tooLarge (shape : List Nat)
  | corrupt (fault : SnapshotFault)
  | version (number : Nat)
  | threshold
  | unreadable
  | absent
deriving DecidableEq, Repr

def SnapshotFault.message : SnapshotFault → String
  | noAxes => "snapshot has no coordinates"
  | repeatedValue axis => s!"coordinate '{axis}' contains duplicate values"
  | arity position found expected =>
    s!"entry at position {position} has {found} indices, expected {expected}"
  | outOfRange position index axis size =>
    s!"entry at position {position} has index {index} on dimension {axis} of size {size}"
  | unresolved position =>
    s!"entry at position {position} does not resolve on the extended axes"

def listText (ns : List Nat) : String :=
  "[" ++ ", ".intercalate (ns.map fun n => s!"{n}") ++ "]"

def thresholdMessage : String :=
  "parallel_threshold must be > 0 when parallel is enabled"

def IndexFault.message : IndexFault → String
  | phase dimension op =>
    let reason := if op.isQuery then "called before finish" else "called after finish"
    s!"protocol violation on dimension '{dimension}': {op.name} {reason}"
  | extraction dimension fault =>
    s!"dimension '{dimension}' could not extract a value: {fault.message}"
  | mismatch expected found =>
    s!"dimension mismatch: expected '{expected.text}', found '{found.text}'"
  | arity expected found => s!"expected {expected} dimensions, got {found}"
  | noDimensions => "no dimensions supplied"
  | order axes rank => s!"invalid dimension order {listText axes} for {rank} dimensions"
  | tooLarge shape => s!"dense shape {listText shape} overflows the addressable cell count"
  | corrupt fault => s!"corrupt snapshot: {fault.message}"
  | version number => s!"unsupported snapshot format version {number}"
  | threshold => s!"configuration error: {thresholdMessage}"
  | unreadable => "serialization error"
  | absent => "I/O error"

end GribCatalog
