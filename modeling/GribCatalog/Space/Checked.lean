import GribCatalog.Space.Build
import GribCatalog.Space.Snapshot

/-!
The same runs where sums are checked. A sum of positions that no word holds ends a run with nothing,
and does not start over from zero.
-/

namespace GribCatalog

/-- A run that gives nothing when a sum of it does not fit. -/
abbrev Checked (ε α : Type) := ExceptT ε Option α

def Checked.of {ε α : Type} (result : Except ε α) : Checked ε α :=
  ExceptT.mk (some result)

def sum? (a b : Nat) : Option Nat :=
  if a + b < wordLimit then some (a + b) else none

/-- A step that takes a stream to its next position. -/
def advance? {σ α : Type} (position : σ → Nat) (step : σ → α → σ) (s : σ) (a : α) : Option σ := do
  let _ ← sum? (position s) 1
  some (step s a)

namespace Space

def nextPosition? (s : Space) : Option Nat := do
  let after ← s.entries.mapM fun e => sum? e.position 1
  some (after.foldl max s.consumed)

def snapshot? (s : Space) : Option Snapshot := do
  let nextPosition ← s.nextPosition?
  some { s.snapshot with nextPosition }

def text? (s : Space) : Option String :=
  s.snapshot?.map fun x => x.toJson.pretty

def fileText? (s : Space) : Option String :=
  s.snapshot?.map fun x => x.toJson.compact

end Space

variable {ρ : Type}

namespace Survey

def accumulate? : Survey ρ → ρ → Option (Survey ρ) :=
  advance? position accumulate

def accumulateBatch? (s : Survey ρ) (options : BuildOptions) (records : List ρ) :
    Option (Survey ρ) :=
  if options.usesParallel records.length && 2 ≤ s.gatherings.length then do
    let _ ← sum? s.position records.length
    some (s.accumulateByDimension records)
  else records.foldlM accumulate? s

end Survey

variable [Located ρ]

def Placement.assign? : Placement ρ → ρ → Option (Placement ρ) :=
  advance? position assign

namespace Space

def build? (dimensions : List (Dimension ρ)) (records : List ρ) (options : BuildOptions) :
    Checked IndexFault (Space × Report) := do
  Checked.of options.validate
  let survey ← Checked.of (Survey.start dimensions 0)
  let survey ← ExceptT.lift (survey.accumulateBatch? options records)
  let placement ← ExceptT.lift (records.foldlM Placement.assign? (survey.finish options))
  pure placement.publish

/-- The next position is looked for when the dimensions have been found to be those of the axes. -/
def extend? (s : Space) (dimensions : List (Dimension ρ)) (records : List ρ)
    (options : BuildOptions) : Checked IndexFault (Space × Report) := do
  Checked.of options.validate
  Checked.of (checkDimensions s.axes dimensions)
  let survey ← Checked.of (Survey.start dimensions 0)
  let base ← ExceptT.lift s.nextPosition?
  let (survey, seeded) := { survey with base }.seed s.axes
  Checked.of seeded
  let survey ← ExceptT.lift (survey.accumulateBatch? options records)
  let placement ← Checked.of (reindex s.axes (survey.finish options) s.entries)
  let placement ← ExceptT.lift (records.foldlM Placement.assign? placement)
  pure placement.publish

end Space

end GribCatalog
