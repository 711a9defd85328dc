import GribCatalog.Axis.Dimension
import GribCatalog.Grib.Field
import GribCatalog.Grib.TimeUnit
import GribCatalog.Space.Entry
import GribCatalog.Text.Blank
import GribCatalog.Text.Split

/-!
The dimensions that fields have, and the names they are asked for by.
-/

namespace GribCatalog

instance : Located Field :=
  ⟨fun f => ⟨f.file, f.offset, f.length, f.index⟩⟩

def TimeUnit.wholeUnits (unit : TimeUnit) (seconds : Int) : Except ExtractFault Int64 :=
  if seconds % unit.seconds = 0 then .ok (Int64.ofInt (seconds / unit.seconds))
  else .error (.invalid s!"{seconds} s is not a whole number of {unit.title} units")

inductive FieldDimension
  | time (unit : TimeUnit)
  | interval (unit : TimeUnit)
  | runtime
  /-- Levels, of one type or of every, with the values of a type ascending or descending. -/
  | vertical (kind : Option UInt8) (descending : Bool)
  | ensemble
deriving DecidableEq, Repr

inductive NameFault
  | unknown (name : String)
  | timeUnit (name : String)
  | levelType (name : String)
deriving DecidableEq, Repr

def NameFault.message : NameFault → String
  | unknown name =>
    s!"unknown dimension '{name}' (expected time, interval, runtime, vertical or ensemble)"
  | timeUnit name => s!"unknown time unit '{name}'"
  | levelType name => s!"invalid level type '{name}'"

namespace FieldDimension

def axisName : FieldDimension → String
  | time _ => "time"
  | interval _ => "time_interval"
  | runtime => "runtime"
  | vertical .. => "vertical"
  | ensemble => "ensemble"

def kind : FieldDimension → AxisKind
  | time _ => .time
  | interval _ => .timeInterval
  | runtime => .runtime
  | vertical .. => .vertical
  | ensemble => .ensemble

def surfaceValue (expected : Option UInt8) (s : Surface) : Except ExtractFault AxisValue :=
  match expected.filter (· ≠ s.kind) with
  | some e => .error (.unsupported s!"level type {s.kind} (expected {e})")
  | none =>
    match AxisValue.ofSurface? s.kind s.value with
    | some v => .ok v
    | none => .error (.invalid "level value is NaN")

def extract (d : FieldDimension) (f : Field) : Except ExtractFault AxisValue :=
  match d with
  | time unit =>
    match f.forecast with
    | .instant offset => (unit.wholeUnits offset).map .offset
    | .interval .. =>
      .error (.unsupported "statistically processed product has an interval, not an offset")
  | interval unit =>
    match f.forecast with
    | .interval start stop => do
      let start ← unit.wholeUnits start
      let stop ← unit.wholeUnits stop
      .ok (.period ⟨start, stop⟩)
    | .instant _ => .error (.missing "instantaneous product has no interval")
  | runtime => .ok (.runtime f.referenceTime)
  | vertical expected _ =>
    match f.level with
    | some s => surfaceValue expected s
    | none => .error (.missing "record has no fixed surface")
  | ensemble =>
    match f.ensemble with
    | some e => .ok (.member ⟨e.kind, UInt16.ofNat e.perturbation.toNat⟩)
    | none => .error (.missing "deterministic product has no ensemble member")

/-- Types of levels ascending, and the values of each type descending. -/
def descendingOrder (a b : AxisValue) : Ordering :=
  match a, b with
  | .level x, .level y => (compare x.kind y.kind).then (compare y.value.rank x.value.rank)
  | a, b => a.order b

def order : FieldDimension → AxisValue → AxisValue → Ordering
  | vertical _ true => descendingOrder
  | _ => AxisValue.order

def dimension (d : FieldDimension) : Dimension Field :=
  ⟨d.axisName, d.kind, d.extract, d.order⟩

/-- The unit of a part of a name, an hour if there is no such part. -/
def unitPart : Option (List Char) → Except NameFault TimeUnit
  | none => .ok .hour
  | some cs =>
    match TimeUnit.ofName? (String.ofList cs) with
    | some unit => .ok unit
    | none => .error (.timeUnit (String.ofList cs))

/-- The level type of a part of a name. Every type is meant where there is none. -/
def levelPart : Option (List Char) → Except NameFault (Option UInt8)
  | none => .ok none
  | some cs =>
    if cs = [] || String.ofList cs = "any" then .ok none
    else
      match Text.unsigned? (Nat.pow 2 8) cs with
      | some n => .ok (some (UInt8.ofNat n))
      | none => .error (.levelType (String.ofList cs))

/-- Reads a name: a word in any case, and after colons a unit or a level type and `desc`. -/
def ofName (name : String) : Except NameFault FieldDimension :=
  let parts := Text.pieces ':' (Text.lower (Text.trim name.toList))
  let isDescending := parts[2]?.any fun cs =>
    String.ofList cs = "desc" || String.ofList cs = "descending"
  match String.ofList (parts.headD []) with
  | "time" => (unitPart parts[1]?).map time
  | "interval" | "time_interval" => (unitPart parts[1]?).map interval
  | "runtime" | "reftime" => .ok runtime
  | "vertical" | "level" => (levelPart parts[1]?).map fun kind => vertical kind isDescending
  | "ensemble" | "member" => .ok ensemble
  | _ => .error (.unknown name)

def name : FieldDimension → String
  | time unit => "time:" ++ unit.name
  | interval unit => "interval:" ++ unit.name
  | runtime => "runtime"
  | vertical kind descending =>
    "vertical" ++ (match kind with
      | some k => s!":{k}"
      | none => "") ++ if descending then ":desc" else ""
  | ensemble => "ensemble"

def ofNames (names : List String) : Except NameFault (List (Dimension Field)) :=
  names.mapM fun name => (ofName name).map dimension

end FieldDimension

end GribCatalog
