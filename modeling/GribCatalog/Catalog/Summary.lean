import GribCatalog.Catalog.Document
import GribCatalog.Grib.Tables
import GribCatalog.Space.Dense

/-!
What a catalog holds, for readers: its report, its axes, and how much of them is filled.
-/

namespace GribCatalog.Summary

def listedValues : Nat := 12

/-- A level is described, and any other value is written as in queries. -/
def label (v : AxisValue) : String :=
  match v.level? with
  | some l => Tables.standard.describeLevel ⟨l.kind, l.value⟩
  | none => v.display

def axisLine (a : Axis) : String :=
  let labels := ", ".intercalate ((a.values.take listedValues).map label)
  let more := a.size - listedValues
  s!"axis {a.name} ({a.kind.text}): {a.size} values [{labels}" ++
    (if 0 < more then s!", ... {more} more" else "") ++ "]"

def percent (s : Space) : String :=
  String.ofList ((s.density.mul (.ofNat 100)).fixedText 1)

def cellsLine (s : Space) : String :=
  match DenseView.ofSpace s (List.range s.rank) with
  | .ok v =>
    s!"cells:      {v.presentCount} present, {v.missingCount} missing of {v.size} " ++
      s!"({percent s}% dense)"
  | .error e => s!"cells:      {s.cells.length} present ({e.message})"

def lines (d : Document) (s : Space) : List String :=
  [s!"created:    {String.ofList d.created.text}", s!"files:      {d.files.length}"] ++
    (d.parameter.map fun name => s!"parameter:  {name}").toList ++
    [s!"report:     {d.report.text}"] ++
    (if 0 < d.scanFaults || 0 < d.filtered then
      [s!"dropped:    {d.scanFaults} undecodable, {d.filtered} filtered"]
    else []) ++
    s.axes.map axisLine ++ [cellsLine s]

/-- The summary of a document and its space, a line feed after every line. -/
def text (d : Document) (s : Space) : String :=
  String.join ((lines d s).map fun line => line ++ "\n")

end GribCatalog.Summary
