import GribCatalog.Catalog.Build
import GribCatalog.Space.Checked

/-!
Catalogs where sums are checked: those of positions, and those of the counts of an update.
-/

namespace GribCatalog

def Report.merge? (old new : Report) : Option Report := do
  let seen ← sum? new.seen old.seen
  let indexed ← sum? new.indexed old.indexed
  some { old.merge new with seen, indexed }

namespace Document

def build? (now : Instant) (fs : FileSystem) (s : Settings) (paths : List String) :
    Checked CatalogFault (Document × Space) := do
  let dimensions ← Checked.of s.fieldDimensions
  let files ← Checked.of ((s.files fs paths).mapError CatalogFault.inputs)
  let harvest ← Checked.of ((s.harvest fs 0 files).mapError CatalogFault.inputs)
  let (space, report) ←
    (Space.build? dimensions harvest.fields s.index).adapt (CatalogFault.index .building)
  let snapshot ← ExceptT.lift space.snapshot?
  pure ({
    created := now, files, dimensions := s.dimensions, parameter := s.parameter, report
    scanFaults := harvest.scanFaults, filtered := harvest.filtered
    space := snapshot }, space)

def addFiles? (d : Document) (now : Instant) (fs : FileSystem) (s : Settings)
    (dimensions : List (Dimension Field)) (space : Space) (files : List String) :
    Checked CatalogFault (Document × Space) := do
  if fileLimit ≤ d.files.length then Checked.of (.error .tooManyFiles)
  let harvest ← Checked.of ((s.harvest fs d.files.length files).mapError CatalogFault.inputs)
  let (space, report) ←
    (space.extend? dimensions harvest.fields s.index).adapt (CatalogFault.index .extending)
  let report ← ExceptT.lift (d.report.merge? report)
  let snapshot ← ExceptT.lift space.snapshot?
  let scanFaults ← ExceptT.lift (sum? d.scanFaults harvest.scanFaults)
  let filtered ← ExceptT.lift (sum? d.filtered harvest.filtered)
  pure ({
    created := now, files := d.files ++ files, dimensions := s.dimensions
    parameter := s.parameter, report, scanFaults, filtered, space := snapshot }, space)

def update? (d : Document) (now : Instant) (fs : FileSystem) (s : Settings) (paths : List String) :
    Checked CatalogFault (Document × Space) := do
  let s := s.withDocument d
  let dimensions ← Checked.of s.fieldDimensions
  let found ← Checked.of ((s.files fs paths).mapError CatalogFault.inputs)
  let space ← Checked.of (d.toSpace.mapError (CatalogFault.index .restoring))
  match found.filter fun file => !d.files.any (Path.same file) with
  | [] => pure (d, space)
  | files => d.addFiles? now fs s dimensions space files

end Document

end GribCatalog
