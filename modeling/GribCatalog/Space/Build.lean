import GribCatalog.Space.Placement

/-!
Spaces from records: built at once, and extended by more records without those that it was built
from.
-/

namespace GribCatalog.Space

variable {ρ : Type} [Located ρ]

def build (dimensions : List (Dimension ρ)) (records : List ρ) (options : BuildOptions) :
    Except IndexFault (Space × Report) := do
  options.validate
  let survey ← Survey.start dimensions 0
  let placement := (survey.accumulateBatch options records).finish options
  .ok (records.foldl Placement.assign placement).publish

def reindex? (old new : List Axis) (e : Entry) : Option Entry := do
  let indices ← (e.indices.zip (old.zip new)).mapM fun (i, a, b) => a.values[i]?.bind b.index?
  some { e with indices }

/-- Puts the old entries before all others. -/
def reindex (old : List Axis) (p : Placement ρ) (entries : List Entry) :
    Except IndexFault (Placement ρ) := do
  let kept ← entries.mapM fun e =>
    match reindex? old p.axes e with
    | some e => .ok e
    | none => .error (.corrupt (.unresolved e.position))
  .ok { p with entries := kept }

/-- The space with more records, which stand after the old ones in the stream. -/
def extend (s : Space) (dimensions : List (Dimension ρ)) (records : List ρ)
    (options : BuildOptions) : Except IndexFault (Space × Report) := do
  options.validate
  checkDimensions s.axes dimensions
  let survey ← Survey.start dimensions s.nextPosition
  let (survey, seeded) := survey.seed s.axes
  seeded
  let placement := (survey.accumulateBatch options records).finish options
  let placement ← reindex s.axes placement s.entries
  .ok (records.foldl Placement.assign placement).publish

end GribCatalog.Space
