import GribCatalog.Space.Basic

/-!
The indices of a record on finished axes. The first dimension without one decides what is said.
-/

namespace GribCatalog

inductive Resolution
  | found (indices : List Nat)
  | miss (dimension : String) (value : AxisValue)
  | unextractable (dimension : String) (fault : ExtractFault)
deriving DecidableEq

namespace Resolution

variable {ρ : Type}

/-- The same with the index on one more dimension before the others. -/
def cons (index : Nat) : Resolution → Resolution
  | found indices => found (index :: indices)
  | r => r

def ofRecord (record : ρ) : List (Dimension ρ × Axis) → Resolution
  | [] => found []
  | (d, a) :: rest =>
    match d.extract record with
    | .error e => unextractable d.name e
    | .ok v =>
      match a.index? v with
      | none => miss d.name v
      | some i => (ofRecord record rest).cons i

end Resolution

/-- Dimensions have to be as many as the axes and of their kinds. -/
def checkDimensions {ρ : Type} (axes : List Axis) (dimensions : List (Dimension ρ)) :
    Except IndexFault Unit :=
  if axes.length ≠ dimensions.length then .error (.arity axes.length dimensions.length)
  else
    match (axes.zip dimensions).find? fun (a, d) => a.kind ≠ d.kind with
    | some (a, d) => .error (.mismatch a.kind d.kind)
    | none => .ok ()

namespace Space

variable {ρ : Type}

def resolve (s : Space) (dimensions : List (Dimension ρ)) :
    Except IndexFault (ρ → Resolution) := do
  checkDimensions s.axes dimensions
  .ok fun record => .ofRecord record (dimensions.zip s.axes)

def lookup (s : Space) (dimensions : List (Dimension ρ)) (record : ρ) :
    Except IndexFault (Option (List Nat)) := do
  let resolution ← s.resolve dimensions
  match resolution record with
  | .found indices => .ok (some indices)
  | .miss .. => .ok none
  | .unextractable dimension fault => .error (.extraction dimension fault)

end Space

end GribCatalog
