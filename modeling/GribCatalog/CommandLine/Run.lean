import GribCatalog.Catalog.Checked
import GribCatalog.Catalog.Lookup
import GribCatalog.Catalog.SettingsFile
import GribCatalog.Catalog.Summary
import GribCatalog.CommandLine.Invocation

/-!
What a command prints and writes, and the status that it ends with. A command that fails does
neither.
-/

namespace GribCatalog.CommandLine

inductive RunFault
  | settings (fault : SettingsFault)
  | policy (text : String)
  | catalog (fault : CatalogFault)
  | document (path : String) (fault : IndexFault)
  | space (fault : IndexFault)
  | query (fault : QueryFault)
  | unwritable (path : String)
deriving DecidableEq, Repr

def RunFault.message : RunFault → String
  | settings fault => fault.message
  | policy text => s!"Unknown duplicate policy '{text}'"
  | catalog fault => fault.message
  | document path _ => s!"Failed to load index {path}"
  | space fault => fault.message
  | query fault => fault.message
  | unwritable path => s!"Failed to write index {path}"

structure Outcome where
  status : UInt32 := 0
  output : String := ""
  /-- What is said on the side when it fails. -/
  complaint : Option String := none
  /-- The path and the text of the file that is written. -/
  saved : Option (String × String) := none
deriving DecidableEq, Repr

def Outcome.ofFault (e : RunFault) : Outcome :=
  { status := 1, complaint := some e.message }

/-- A command that a sum has ended. -/
def Outcome.overflow : Outcome :=
  { status := 101, complaint := some "attempt to add with overflow" }

def Outcome.ofStop : Stop → Outcome
  | .help => {}
  | .misuse fault => { status := 2, complaint := some fault.message }

def Outcome.files (o : Outcome) (fs : FileSystem) : FileSystem :=
  match o.saved with
  | some (path, text) => (fs.write? path text.toUTF8.toList).getD fs
  | none => fs

def settingsOf (env : Environment) (fs : FileSystem) (config : Option String) :
    Except SettingsFault Settings :=
  match config with
  | some path => Settings.ofFile env path (fs.text? path)
  | none => do
    let s := Settings.ofEnvironment env
    s.validate
    .ok s

def Overrides.apply (o : Overrides) (s : Settings) : Except RunFault Settings := do
  let policy ←
    match o.policy with
    | none => .ok s.index.duplicatePolicy
    | some text =>
      match DuplicatePolicy.parse? text with
      | some policy => .ok policy
      | none => .error (.policy text)
  .ok { s with
    index := { s.index with
      duplicatePolicy := policy, parallel := o.parallel || s.index.parallel }
    dimensions := (o.dimensions.map splitList).getD s.dimensions
    parameter := o.parameter.or s.parameter }

def save (fs : FileSystem) (path : String) (d : Document) : Except RunFault Outcome :=
  match fs.write? path d.text.toUTF8.toList with
  | some _ => .ok { saved := some (path, d.text) }
  | none => .error (.unwritable path)

def load (fs : FileSystem) (path : String) : Except RunFault Document :=
  (Document.ofFile fs path).mapError (RunFault.document path)

def Command.run (now : Instant) (fs : FileSystem) (s : Settings) :
    Command → Checked RunFault Outcome
  | build paths output overrides => do
    let s ← Checked.of (overrides.apply s)
    let (d, _) ← (Document.build? now fs s paths).adapt RunFault.catalog
    Checked.of (save fs output d)
  | update index paths => do
    let d ← Checked.of (load fs index)
    let (d, _) ← (d.update? now fs s paths).adapt RunFault.catalog
    Checked.of (save fs index d)
  | inspect index => Checked.of do
    let d ← load fs index
    let space ← d.toSpace.mapError RunFault.space
    .ok { output := Summary.text d space }
  | lookup index pairs => Checked.of do
    let d ← load fs index
    let space ← d.toSpace.mapError RunFault.space
    let answer ← (d.lookup space pairs).mapError RunFault.query
    .ok { output := answer.toJson.pretty ++ "\n" }

def Invocation.run (now : Instant) (env : Environment) (fs : FileSystem) (i : Invocation) :
    Checked RunFault Outcome := do
  let s ← Checked.of ((settingsOf env fs i.config).mapError RunFault.settings)
  i.command.run now fs s

/-- What a program does that is started with these arguments. -/
def run (now : Instant) (env : Environment) (fs : FileSystem) (args : List String) : Outcome :=
  match Invocation.ofArguments env args with
  | .error stop => .ofStop stop
  | .ok invocation =>
    match (invocation.run now env fs).run with
    | some (.ok outcome) => outcome
    | some (.error fault) => .ofFault fault
    | none => .overflow

end GribCatalog.CommandLine
