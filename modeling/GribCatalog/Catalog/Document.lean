import GribCatalog.Space.Snapshot

/-!
A catalog: a space of fields with the files that they are in and what became of the records met on
the way. It is kept as a JSON document.
-/

namespace GribCatalog

structure Document where
  created : Instant
  /-- Paths of the files. Locations number them from zero. -/
  files : List String
  /-- Names of the dimensions that the space was built on. -/
  dimensions : List String
  /-- Short name of the one parameter that was catalogued, if there is only one. -/
  parameter : Option String := none
  report : Report
  /-- Faults met in all files. -/
  scanFaults : Nat := 0
  /-- Fields of other parameters. -/
  filtered : Nat := 0
  space : Snapshot
deriving DecidableEq

namespace Skip

def toJson (s : Skip) : Json :=
  .ofMembers [("position", .ofNat s.position), ("dimension", .ofString s.dimension),
    ("reason", .ofString s.reason)]

def ofJson? (j : Json) : Option Skip :=
  match j.fields? ["position", "dimension", "reason"] with
  | some [some position, some dimension, some reason] => do
    let position ← position.natural? wordLimit
    let dimension ← dimension.string?
    let reason ← reason.string?
    some ⟨position, dimension, reason⟩
  | _ => none

end Skip

namespace Miss

def toJson (m : Miss) : Json :=
  .ofMembers [("position", .ofNat m.position), ("dimension", .ofString m.dimension),
    ("value", .ofString m.value)]

def ofJson? (j : Json) : Option Miss :=
  match j.fields? ["position", "dimension", "value"] with
  | some [some position, some dimension, some value] => do
    let position ← position.natural? wordLimit
    let dimension ← dimension.string?
    let value ← value.string?
    some ⟨position, dimension, value⟩
  | _ => none

end Miss

namespace Duplicate

def toJson (d : Duplicate) : Json :=
  .ofMembers [("indices", .array (d.indices.map .ofNat)),
    ("positions", .array (d.positions.map .ofNat))]

def ofJson? (j : Json) : Option Duplicate :=
  match j.fields? ["indices", "positions"] with
  | some [some indices, some positions] => do
    let indices ← indices.list? (Json.natural? wordLimit)
    let positions ← positions.list? (Json.natural? wordLimit)
    some ⟨indices, positions⟩
  | _ => none

end Duplicate

namespace Report

def toJson (r : Report) : Json :=
  .ofMembers [("records_seen", .ofNat r.seen), ("records_indexed", .ofNat r.indexed),
    ("skipped", .array (r.skipped.map Skip.toJson)),
    ("misses", .array (r.misses.map Miss.toJson)),
    ("duplicates", .array (r.duplicates.map Duplicate.toJson))]

def ofJson? (j : Json) : Option Report :=
  let names := ["records_seen", "records_indexed", "skipped", "misses", "duplicates"]
  match j.fields? names with
  | some [some seen, some indexed, some skipped, some misses, some duplicates] => do
    let seen ← seen.natural? wordLimit
    let indexed ← indexed.natural? wordLimit
    let skipped ← skipped.list? Skip.ofJson?
    let misses ← misses.list? Miss.ofJson?
    let duplicates ← duplicates.list? Duplicate.ofJson?
    some { seen, indexed, skipped, misses, duplicates }
  | _ => none

end Report

namespace Document

def toJson (d : Document) : Json :=
  .ofMembers [("created", d.created.toJson), ("files", .array (d.files.map .ofString)),
    ("dimensions", .array (d.dimensions.map .ofString)),
    ("parameter", .ofOption .ofString d.parameter), ("report", d.report.toJson),
    ("scan_errors", .ofNat d.scanFaults), ("filtered", .ofNat d.filtered),
    ("space", d.space.toJson)]

def ofJson? (j : Json) : Option Document :=
  let names := ["created", "files", "dimensions", "parameter", "report", "scan_errors",
    "filtered", "space"]
  match j.fields? names with
  | some [some created, some files, some dimensions, parameter, some report, faults, filtered,
      some space] => do
    let created ← Instant.ofJson? created
    let files ← files.list? Json.string?
    let dimensions ← dimensions.list? Json.string?
    let parameter ← Json.orDefault (Json.option? Json.string?) none parameter
    let report ← Report.ofJson? report
    let scanFaults ← Json.orDefault (Json.natural? wordLimit) 0 faults
    let filtered ← Json.orDefault (Json.natural? wordLimit) 0 filtered
    let space ← Snapshot.ofJsonAt? 2 space
    some { created, files, dimensions, parameter, report, scanFaults, filtered, space }
  | _ => none

def ofText? (text : String) : Option Document :=
  (Json.parse? text).bind ofJson?

def text (d : Document) : String :=
  d.toJson.pretty

def toSpace (d : Document) : Except IndexFault Space :=
  Space.restore d.space

def pathOf? (d : Document) (l : Location) : Option String :=
  d.files[l.file.toNat]?

end Document

end GribCatalog
