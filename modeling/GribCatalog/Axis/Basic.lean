import GribCatalog.Axis.Kind
import GribCatalog.Axis.Value

/-!
An axis: a name, a kind and the values in their order. The index of a value is its place among them.
-/

namespace GribCatalog

structure Axis where
  name : String
  kind : AxisKind
  values : List AxisValue
deriving DecidableEq

namespace Axis

def size (a : Axis) : Nat :=
  a.values.length

def position? (a : Axis) (v : AxisValue) : Option Nat :=
  a.values.findIdx? (· = v)

def lastIndex? (v : AxisValue) : List AxisValue → Option Nat
  | [] => none
  | w :: ws =>
    match lastIndex? v ws with
    | some i => some (i + 1)
    | none => if w = v then some 0 else none

/-- Index of a value: its only place on an axis that repeats no value, and its last on any other. -/
def index? (a : Axis) (v : AxisValue) : Option Nat :=
  lastIndex? v a.values

def distinct (vs : List AxisValue) : List AxisValue :=
  vs.foldr (fun v seen => if v ∈ seen then seen else v :: seen) []

def indexSize (a : Axis) : Nat :=
  (distinct a.values).length

end Axis

end GribCatalog
