import GribCatalog.Space.Resolution
import GribCatalog.Space.Survey

/-!
Second pass over the stream: the records find their places on the finished axes. A record that the
first pass skipped is not reported again.
-/

namespace GribCatalog

structure Placement (ρ : Type) where
  dimensions : List (Dimension ρ)
  axes : List Axis
  policy : DuplicatePolicy
  entries : List Entry := []
  /-- Position of the next record. -/
  position : Nat
  report : Report

/-- Freezes the axes. -/
def Survey.finish {ρ : Type} (s : Survey ρ) (options : BuildOptions) : Placement ρ where
  dimensions := s.gatherings.map Gathering.dimension
  axes := s.gatherings.map Gathering.axis
  policy := options.duplicatePolicy
  position := s.base
  report := { seen := s.seen, skipped := s.skipped }

namespace Placement

variable {ρ : Type} [Located ρ]

def resolve (p : Placement ρ) (record : ρ) : Resolution :=
  .ofRecord record (p.dimensions.zip p.axes)

def note (position : Nat) (r : Report) : Resolution → Report
  | .found _ => { r with indexed := r.indexed + 1 }
  | .miss dimension value =>
    { r with misses := r.misses ++ [⟨position, dimension, value.display⟩] }
  | .unextractable dimension fault =>
    if r.skipped.any fun s => s.position = position then r
    else { r with skipped := r.skipped ++ [⟨position, dimension, fault.message⟩] }

/-- The entries with the record at `position`, if it has indices. -/
def record (position : Nat) (location : Location) (entries : List Entry) :
    Resolution → List Entry
  | .found indices => entries ++ [⟨position, location, indices⟩]
  | _ => entries

def assign (p : Placement ρ) (r : ρ) : Placement ρ :=
  let resolution := p.resolve r
  { p with
    entries := record p.position (Located.location r) p.entries resolution
    position := positionAfter p.position 1
    report := note p.position p.report resolution }

def publish (p : Placement ρ) : Space × Report :=
  let s := Space.assemble p.axes p.entries p.policy p.position
  (s, { p.report with duplicates := Cell.duplicates s.cells })

end Placement

end GribCatalog
