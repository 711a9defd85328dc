import GribCatalog.Catalog.Settings
import GribCatalog.Files.Basic
import GribCatalog.Grib.Scan
import GribCatalog.Grib.Tables
import GribCatalog.Gzip.Member

/-!
Files to catalogue and the fields in them. A file is taken if it is named, or if it is in a
directory that is named and its own name is accepted.
-/

namespace GribCatalog

inductive InputFault
  | noFiles
  | parameter (name : String)
  | unreadable (path : String)
  | corrupt (path : String)
deriving DecidableEq, Repr

def InputFault.message : InputFault → String
  | noFiles => "no GRIB2 files found"
  | parameter name => s!"unknown parameter '{name}'"
  | unreadable path => s!"failed to read {path}"
  | corrupt path => s!"failed to decompress {path}"

structure Harvest where
  fields : List Field := []
  /-- Messages and fields that could not be read. -/
  scanFaults : Nat := 0
  /-- Fields of other parameters. -/
  filtered : Nat := 0

namespace Harvest

def append (a b : Harvest) : Harvest :=
  ⟨a.fields ++ b.fields, a.scanFaults + b.scanFaults, a.filtered + b.filtered⟩

def wants (parameter : Option Parameter) (f : Field) : Bool :=
  parameter.all fun p => f.parameter = p

def ofItems (parameter : Option Parameter) (items : List ScanItem) : Harvest :=
  let (wanted, others) := (ScanItem.fields items).partition (wants parameter)
  ⟨wanted, (ScanItem.faults items).length, others.length⟩

end Harvest

/-- The bytes of a file, decompressed if they are gzip data. -/
def FileSystem.gribBytes (fs : FileSystem) (path : String) : Except InputFault Bytes :=
  match fs.contents? path with
  | none => .error (.unreadable path)
  | some bs =>
    if Gzip.isGzip bs then
      match Gzip.decompress? bs with
      | some bs => .ok bs
      | none => .error (.corrupt path)
    else .ok bs

namespace Settings

def filesAt (s : Settings) (fs : FileSystem) (path : String) : List String :=
  if fs.isDirectory path then
    (fs.filesIn path).filterMap fun (file, name) => if s.accepts name then some file else none
  else [path]

/-- The files that paths stand for, each at its first place. -/
def files (s : Settings) (fs : FileSystem) (paths : List String) :
    Except InputFault (List String) :=
  match Path.fresh [] (paths.flatMap (s.filesAt fs)) with
  | [] => .error .noFiles
  | found => .ok found

def wantedParameter (s : Settings) : Except InputFault (Option Parameter) :=
  match s.parameter with
  | none => .ok none
  | some name =>
    match Tables.standard.parameter? name with
    | some p => .ok (some p)
    | none => .error (.parameter name)

def harvestFrom (fs : FileSystem) (parameter : Option Parameter) (base : Nat) :
    List String → Except InputFault Harvest
  | [] => .ok {}
  | path :: paths => do
    let bs ← fs.gribBytes path
    let rest ← harvestFrom fs parameter (base + 1) paths
    .ok ((Harvest.ofItems parameter (scan (UInt32.ofNat base) bs)).append rest)

def harvest (s : Settings) (fs : FileSystem) (base : Nat) (files : List String) :
    Except InputFault Harvest := do
  let parameter ← s.wantedParameter
  harvestFrom fs parameter base files

end Settings

end GribCatalog
