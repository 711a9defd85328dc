import GribCatalog.Grib.Dimension
import GribCatalog.Space.Options
import GribCatalog.Yaml.Basic

/-!
What to catalogue and how. Settings are taken from the environment, or read from JSON.
-/

namespace GribCatalog

structure Settings where
  index : BuildOptions := {}
  /-- Names of the dimensions, in the order of the axes. -/
  dimensions : List String := ["time", "vertical"]
  /-- Short name of the one parameter to catalogue, if not all. -/
  parameter : Option String := none
  /-- How many files are read at a time. -/
  concurrency : Nat := 4
  /-- What names of files in directories end with. -/
  extensions : List String := [".grib2", ".grb2", ".grib2.gz"]
deriving DecidableEq

inductive SettingsFault
  | threshold
  | concurrency
  | noDimensions
  | dimension (name : String) (fault : NameFault)
  | noFile (path : String)
  | unclosed (expression : String)
  | unset (expression : String)
  | noYaml
  | invalid (path : String)
deriving DecidableEq, Repr

namespace SettingsFault

def quotedPath (path : String) : String :=
  "\"" ++ String.ofList (path.toList.flatMap fun c =>
    if c = '"' || c = '\\' then ['\\', c] else [c]) ++ "\""

def message : SettingsFault → String
  | threshold => s!"index: {thresholdMessage}"
  | concurrency => "concurrency must be > 0"
  | noDimensions => "at least one dimension is required"
  | dimension name _ => s!"Invalid dimension '{name}'"
  | noFile path => s!"Failed to read indexer config from {quotedPath path}"
  | unclosed expression => s!"Unclosed variable substitution: $\x7b{expression}"
  | unset expression => s!"Environment variable {expression} not set"
  | noYaml => "Failed to parse indexer config YAML"
  | invalid path => s!"Invalid indexer config in {quotedPath path}"

end SettingsFault

/-- The items of a list with commas between them, without the blank ones. -/
def splitList (text : String) : List String :=
  ((Text.pieces ',' text.toList).map Text.trim).filterMap fun item =>
    if item = [] then none else some (String.ofList item)

namespace Settings

def ofEnvironment (env : Environment) : Settings :=
  let s : Settings := {}
  { s with
    index := .ofEnvironment env
    dimensions := ((env.lookup "INDEXER_DIMENSIONS").map splitList).getD s.dimensions
    parameter :=
      ((env.lookup "INDEXER_PARAMETER").map fun text => Text.trim text.toList).bind fun name =>
        if name = [] then none else some (String.ofList name)
    concurrency :=
      ((env.lookup "INDEXER_CONCURRENCY").bind BuildOptions.word?).getD s.concurrency }

def checkNames : List String → Except SettingsFault Unit
  | [] => .ok ()
  | name :: names =>
    match FieldDimension.ofName name with
    | .ok _ => checkNames names
    | .error e => .error (.dimension name e)

def validate (s : Settings) : Except SettingsFault Unit :=
  match s.index.validate with
  | .error _ => .error .threshold
  | .ok _ =>
    if s.concurrency = 0 then .error .concurrency
    else if s.dimensions = [] then .error .noDimensions
    else checkNames s.dimensions

/-- Whether a file of a directory is taken, by the end of its name in any case. -/
def accepts (s : Settings) (name : String) : Bool :=
  let name := Text.lower name.toList
  s.extensions.any fun ext => (Text.lower ext.toList).isSuffixOf name

def fieldNames : List String :=
  ["index", "dimensions", "parameter", "concurrency", "extensions"]

def ofJson? (j : Json) : Option Settings :=
  let s : Settings := {}
  match j.fields? fieldNames with
  | some [index, dimensions, parameter, concurrency, extensions] => do
    let index ← Json.orDefault BuildOptions.ofJson? s.index index
    let dimensions ← Json.orDefault (Json.list? Json.string?) s.dimensions dimensions
    let parameter ← Json.orDefault (Json.option? Json.string?) s.parameter parameter
    let concurrency ← Json.orDefault (Json.natural? wordLimit) s.concurrency concurrency
    let extensions ← Json.orDefault (Json.list? Json.string?) s.extensions extensions
    some { index, dimensions, parameter, concurrency, extensions }
  | _ => none

end Settings

end GribCatalog
