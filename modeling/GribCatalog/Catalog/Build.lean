import GribCatalog.Catalog.Document
import GribCatalog.Catalog.Inputs
import GribCatalog.Space.Build

/-!
Catalogs of files: built at once, and updated with more files. An update reads the new files only,
and keeps the dimensions and the parameter of the catalog.
-/

namespace GribCatalog

inductive CatalogStage
  | building
  | restoring
  | extending
deriving DecidableEq, Repr

def CatalogStage.message : CatalogStage → String
  | building => "Failed to build coordinate space"
  | restoring => "Stored index is corrupt"
  | extending => "Failed to extend coordinate space"

inductive CatalogFault
  | settings (fault : SettingsFault)
  | name (fault : NameFault)
  | inputs (fault : InputFault)
  | index (stage : CatalogStage) (fault : IndexFault)
  | tooManyFiles
deriving DecidableEq, Repr

def CatalogFault.message : CatalogFault → String
  | settings fault => fault.message
  | name fault => fault.message
  | inputs fault => fault.message
  | index stage _ => stage.message
  | tooManyFiles => "Too many indexed files"

namespace Report

/-- The report of two runs, the first of which is part of the second's space. -/
def merge (old new : Report) : Report where
  seen := (new.seen + old.seen) % wordLimit
  indexed := (new.indexed + old.indexed) % wordLimit
  skipped := old.skipped ++ new.skipped
  misses := old.misses ++ new.misses
  duplicates := new.duplicates

end Report

namespace Settings

def fieldDimensions (s : Settings) : Except CatalogFault (List (Dimension Field)) := do
  s.validate.mapError CatalogFault.settings
  (FieldDimension.ofNames s.dimensions).mapError CatalogFault.name

def withDocument (s : Settings) (d : Document) : Settings :=
  { s with dimensions := d.dimensions, parameter := d.parameter }

end Settings

namespace Document

def build (now : Instant) (fs : FileSystem) (s : Settings) (paths : List String) :
    Except CatalogFault (Document × Space) := do
  let dimensions ← s.fieldDimensions
  let files ← (s.files fs paths).mapError CatalogFault.inputs
  let harvest ← (s.harvest fs 0 files).mapError CatalogFault.inputs
  let (space, report) ←
    (Space.build dimensions harvest.fields s.index).mapError (CatalogFault.index .building)
  .ok ({
    created := now, files, dimensions := s.dimensions, parameter := s.parameter, report
    scanFaults := harvest.scanFaults, filtered := harvest.filtered
    space := space.snapshot }, space)

/-- Files that have a number: no more than there are words of 32 bits. -/
def fileLimit : Nat := Nat.pow 2 32

def addFiles (d : Document) (now : Instant) (fs : FileSystem) (s : Settings)
    (dimensions : List (Dimension Field)) (space : Space) (files : List String) :
    Except CatalogFault (Document × Space) := do
  if fileLimit ≤ d.files.length then .error .tooManyFiles
  let harvest ← (s.harvest fs d.files.length files).mapError CatalogFault.inputs
  let (space, report) ←
    (space.extend dimensions harvest.fields s.index).mapError (CatalogFault.index .extending)
  .ok ({
    created := now, files := d.files ++ files, dimensions := s.dimensions
    parameter := s.parameter, report := d.report.merge report
    scanFaults := (d.scanFaults + harvest.scanFaults) % wordLimit
    filtered := (d.filtered + harvest.filtered) % wordLimit
    space := space.snapshot }, space)

/-- The catalog with the files that it does not have yet. Without any it stays as it is. -/
def update (d : Document) (now : Instant) (fs : FileSystem) (s : Settings) (paths : List String) :
    Except CatalogFault (Document × Space) := do
  let s := s.withDocument d
  let dimensions ← s.fieldDimensions
  let found ← (s.files fs paths).mapError CatalogFault.inputs
  let space ← d.toSpace.mapError (CatalogFault.index .restoring)
  match found.filter fun file => !d.files.any (Path.same file) with
  | [] => .ok (d, space)
  | files => d.addFiles now fs s dimensions space files

def ofFile (fs : FileSystem) (path : String) : Except IndexFault Document :=
  match fs.find? path with
  | none => .error .absent
  | some (.file none) => .error .absent
  | some _ =>
    match (fs.text? path).bind ofText? with
    | some d => .ok d
    | none => .error .unreadable

end Document

end GribCatalog
