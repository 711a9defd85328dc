import GribCatalog.Json.Printer
import GribCatalog.Space.Fault
import GribCatalog.Space.Policy
import GribCatalog.Text.Numeral

/-!
How a space is built.
-/

namespace GribCatalog

/-- Numbers of records, of positions and of bytes are words of 64 bits. -/
def wordLimit : Nat := Nat.pow 2 64

/-- The variables that a program is started with. A name stands for its first value. -/
abbrev Environment := List (String × String)

structure BuildOptions where
  duplicatePolicy : DuplicatePolicy := .lastWins
  /-- Whether dimensions may be collected side by side. -/
  parallel : Bool := false
  /-- Fewest records for which they are. -/
  parallelThreshold : Nat := 1024
  /-- How many records without an index are named in the log. -/
  skippedLogLimit : Nat := 20
deriving DecidableEq, Repr

namespace BuildOptions

def validate (o : BuildOptions) : Except IndexFault Unit :=
  if o.parallel && o.parallelThreshold == 0 then .error .threshold else .ok ()

def usesParallel (o : BuildOptions) (records : Nat) : Bool :=
  o.parallel && o.parallelThreshold ≤ records

def word? (text : String) : Option Nat :=
  Text.unsigned? wordLimit text.toList

/-- Values from the environment in place of the defaults. Those that make no sense are passed over.
-/
def ofEnvironment (env : Environment) : BuildOptions :=
  let o : BuildOptions := {}
  { duplicatePolicy :=
      ((env.lookup "COORD_INDEX_DUPLICATE_POLICY").bind DuplicatePolicy.parse?).getD
        o.duplicatePolicy
    parallel :=
      match env.lookup "COORD_INDEX_PARALLEL" with
      | some text => Text.lowerString text = "true" || text = "1"
      | none => o.parallel
    parallelThreshold :=
      ((env.lookup "COORD_INDEX_PARALLEL_THRESHOLD").bind word?).getD o.parallelThreshold
    skippedLogLimit :=
      ((env.lookup "COORD_INDEX_LOG_SKIPPED_LIMIT").bind word?).getD o.skippedLogLimit }

def toJson (o : BuildOptions) : Json :=
  .ofMembers [("duplicate_policy", o.duplicatePolicy.toJson), ("parallel", .bool o.parallel),
    ("parallel_threshold", .ofNat o.parallelThreshold),
    ("log_skipped_limit", .ofNat o.skippedLogLimit)]

def ofJson? (j : Json) : Option BuildOptions :=
  let o : BuildOptions := {}
  let names := ["duplicate_policy", "parallel", "parallel_threshold", "log_skipped_limit"]
  match j.fields? names with
  | some [policy, parallel, threshold, limit] => do
    let duplicatePolicy ← Json.orDefault DuplicatePolicy.ofJson? o.duplicatePolicy policy
    let parallel ← Json.orDefault Json.bool? o.parallel parallel
    let parallelThreshold ← Json.orDefault (Json.natural? wordLimit) o.parallelThreshold threshold
    let skippedLogLimit ← Json.orDefault (Json.natural? wordLimit) o.skippedLogLimit limit
    some { duplicatePolicy, parallel, parallelThreshold, skippedLogLimit }
  | _ => none

end BuildOptions

end GribCatalog
