import GribCatalog.Catalog.Expansion
import GribCatalog.Yaml.Decode
import GribCatalog.Yaml.Reader

/-!
Settings in a YAML file, laid over those from the environment.
-/

namespace GribCatalog

namespace DuplicatePolicy

/-- A policy by its name, or by a tag of that name on nothing. -/
def ofYaml? : Yaml → Option DuplicatePolicy
  | .text s => ofName? s
  | .tagged name .null => ofName? name
  | _ => none

end DuplicatePolicy

namespace BuildOptions

def toYaml (o : BuildOptions) : Yaml :=
  .mapping [(.text "duplicate_policy", .text o.duplicatePolicy.name),
    (.text "parallel", .bool o.parallel),
    (.text "parallel_threshold", .integer o.parallelThreshold),
    (.text "log_skipped_limit", .integer o.skippedLogLimit)]

def ofYaml? (y : Yaml) : Option BuildOptions := do
  let o : BuildOptions := {}
  let members ← y.fields?
  let duplicatePolicy ←
    Yaml.field? members "duplicate_policy" DuplicatePolicy.ofYaml? o.duplicatePolicy
  let parallel ← Yaml.field? members "parallel" Yaml.bool? o.parallel
  let parallelThreshold ←
    Yaml.field? members "parallel_threshold" Yaml.word? o.parallelThreshold
  let skippedLogLimit ← Yaml.field? members "log_skipped_limit" Yaml.word? o.skippedLogLimit
  some { duplicatePolicy, parallel, parallelThreshold, skippedLogLimit }

end BuildOptions

namespace Settings

def toYaml (s : Settings) : Yaml :=
  .mapping [(.text "index", s.index.toYaml),
    (.text "dimensions", .sequence (s.dimensions.map .text)),
    (.text "parameter", match s.parameter with
      | some name => .text name
      | none => .null),
    (.text "concurrency", .integer s.concurrency),
    (.text "extensions", .sequence (s.extensions.map .text))]

def ofYaml? (y : Yaml) : Option Settings := do
  let s : Settings := {}
  let members ← y.fields?
  let index ← Yaml.field? members "index" BuildOptions.ofYaml? s.index
  let dimensions ← Yaml.field? members "dimensions" (Yaml.list? Yaml.text?) s.dimensions
  let parameter ← Yaml.field? members "parameter" (Yaml.option? Yaml.text?) s.parameter
  let concurrency ← Yaml.field? members "concurrency" Yaml.word? s.concurrency
  let extensions ← Yaml.field? members "extensions" (Yaml.list? Yaml.text?) s.extensions
  some { index, dimensions, parameter, concurrency, extensions }

def ofFile (env : Environment) (path : String) (contents : Option String) :
    Except SettingsFault Settings := do
  let some contents := contents | .error (.noFile path)
  let expanded ← Expansion.expand env contents
  let some tree := Yaml.parse? expanded | .error .noYaml
  let some settings := ofYaml? (tree.overlay (ofEnvironment env).toYaml) | .error (.invalid path)
  settings.validate
  .ok settings

end Settings

end GribCatalog
