import GribCatalog.Space.Collector
import GribCatalog.Space.Entry
import GribCatalog.Space.Report

/-!
First pass over a stream of records: every dimension gathers the values of every record that has
one. Records may come one by one or in batches, and a batch may be gathered record by record or
dimension by dimension. The skipped records are listed by position and then by dimension either way.
-/

namespace GribCatalog

structure Survey (ρ : Type) where
  gatherings : List (Gathering ρ)
  skipped : List Skip := []
  seen : Nat := 0
  /-- Position of the first record. -/
  base : Nat := 0

namespace Survey

variable {ρ : Type}

def start (dimensions : List (Dimension ρ)) (base : Nat) : Except IndexFault (Survey ρ) :=
  if dimensions.isEmpty then .error .noDimensions
  else .ok { gatherings := dimensions.map fun d => { dimension := d }, base }

/-- Position of the next record. -/
def position (s : Survey ρ) : Nat :=
  positionAfter s.base s.seen

def skip? (d : Dimension ρ) (position : Nat) (record : ρ) : Option Skip :=
  (d.fault? record).map fun e => ⟨position, d.name, e.message⟩

def accumulate (s : Survey ρ) (record : ρ) : Survey ρ :=
  { s with
    gatherings := s.gatherings.map fun g => g.offer record
    skipped := s.skipped ++ s.gatherings.filterMap fun g => skip? g.dimension s.position record
    seen := s.seen + 1 }

def skips (d : Dimension ρ) (position : Nat) (records : List ρ) : List Skip :=
  records.zipIdx.filterMap fun (record, i) => skip? d (positionAfter position i) record

/-- Takes all records on one dimension after the other. -/
def accumulateByDimension (s : Survey ρ) (records : List ρ) : Survey ρ :=
  let skipped := s.gatherings.flatMap fun g => skips g.dimension s.position records
  { s with
    gatherings := s.gatherings.map fun g => records.foldl Gathering.offer g
    skipped := s.skipped ++ skipped.mergeSort fun a b => a.position ≤ b.position
    seen := s.seen + records.length }

/-- Takes records side by side on all dimensions where the options allow it. -/
def accumulateBatch (s : Survey ρ) (options : BuildOptions) (records : List ρ) : Survey ρ :=
  if options.usesParallel records.length && 2 ≤ s.gatherings.length then
    s.accumulateByDimension records
  else records.foldl accumulate s

/-- Adds the values of axes to gatherings one after the other, up to the first that is refused. -/
def addAxes : List (Gathering ρ) → List Axis → List (Gathering ρ) × Except IndexFault Unit
  | g :: gs, a :: as =>
    match g.addAll a with
    | .ok g =>
      let (gs, result) := addAxes gs as
      (g :: gs, result)
    | .error e => (g :: gs, .error e)
  | gs, _ => (gs, .ok ())

/-- Adds the values of finished axes. The axes before one of the wrong kind stay added. -/
def seed (s : Survey ρ) (axes : List Axis) : Survey ρ × Except IndexFault Unit :=
  if axes.length ≠ s.gatherings.length then
    (s, .error (.arity s.gatherings.length axes.length))
  else
    let (gatherings, result) := addAxes s.gatherings axes
    ({ s with gatherings }, result)

end Survey

end GribCatalog
