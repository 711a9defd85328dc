import GribCatalog.Binary64.Shortest
import GribCatalog.Grib.Field
import GribCatalog.Text.Split

/-!
Short names of parameters and descriptions of levels.
-/

namespace GribCatalog

/-- How a level of some type is described. A template holds `\x7bvalue\x7d`, and for pressures
`\x7bvalue_hpa\x7d`, where the value goes. -/
inductive LevelText
  | fixed (text : String)
  | template (text : String)
deriving DecidableEq, Repr

def LevelText.describe (value : Binary64) : LevelText → String
  | fixed text => text
  | template text =>
    let hundredth := (value.div (Binary64.ofNat 100)).numberText
    let cs := Text.replace "\x7bvalue_hpa\x7d".toList hundredth text.toList
    String.ofList (Text.replace "\x7bvalue\x7d".toList value.numberText cs)

structure Tables where
  parameters : List (Parameter × String) := []
  levels : List (UInt8 × LevelText) := []
deriving Repr

namespace Tables

def set {κ α : Type} [DecidableEq κ] (key : κ) (value : α) : List (κ × α) → List (κ × α)
  | [] => [(key, value)]
  | (k, v) :: rest => if k = key then (key, value) :: rest else (k, v) :: set key value rest

def addParameter (t : Tables) (p : Parameter) (name : String) : Tables :=
  { t with parameters := set p name t.parameters }

def addLevel (t : Tables) (kind : UInt8) (text : LevelText) : Tables :=
  { t with levels := set kind text t.levels }

def parameterName (t : Tables) (p : Parameter) : String :=
  (t.parameters.lookup p).getD s!"P{p.discipline}_{p.category}_{p.number}"

/-- The parameter of a short name, in any case of its ASCII letters. -/
def parameter? (t : Tables) (name : String) : Option Parameter :=
  let fold (s : String) := s.toList.map Char.toLower
  (t.parameters.find? fun (_, n) => fold n = fold name).map Prod.fst

def describeLevel (t : Tables) (s : Surface) : String :=
  match t.levels.lookup s.kind with
  | some text => text.describe s.value
  | none => s!"Level type {s.kind} value " ++ String.ofList s.value.numberText

def describe (t : Tables) (f : Field) : String :=
  let name := t.parameterName f.parameter
  match f.level with
  | some level => name ++ " " ++ t.describeLevel level
  | none => name

def isEmpty (t : Tables) : Bool :=
  t.parameters.isEmpty && t.levels.isEmpty

def standard : Tables where
  parameters := [
    (⟨0, 0, 0⟩, "TMP"), (⟨0, 0, 2⟩, "POT"), (⟨0, 0, 6⟩, "DPT"), (⟨0, 1, 0⟩, "SPFH"),
    (⟨0, 1, 1⟩, "RH"), (⟨0, 1, 3⟩, "PWAT"), (⟨0, 1, 7⟩, "PRATE"), (⟨0, 1, 8⟩, "APCP"),
    (⟨0, 1, 10⟩, "ACPCP"), (⟨0, 2, 0⟩, "WDIR"), (⟨0, 2, 1⟩, "WIND"), (⟨0, 2, 2⟩, "UGRD"),
    (⟨0, 2, 3⟩, "VGRD"), (⟨0, 2, 8⟩, "VVEL"), (⟨0, 2, 10⟩, "ABSV"), (⟨0, 2, 22⟩, "GUST"),
    (⟨0, 3, 0⟩, "PRES"), (⟨0, 3, 1⟩, "PRMSL"), (⟨0, 3, 5⟩, "HGT"), (⟨0, 6, 1⟩, "TCDC"),
    (⟨0, 7, 6⟩, "CAPE"), (⟨0, 7, 7⟩, "CIN"), (⟨0, 16, 196⟩, "REFC"), (⟨0, 19, 0⟩, "VIS")]
  levels := [
    (1, .fixed "surface"), (7, .fixed "tropopause"), (8, .fixed "top of atmosphere"),
    (100, .template "\x7bvalue_hpa\x7d mb"), (101, .fixed "mean sea level"),
    (102, .template "\x7bvalue\x7d m above MSL"), (103, .template "\x7bvalue\x7d m above ground"),
    (104, .template "sigma level \x7bvalue\x7d"), (105, .template "hybrid level \x7bvalue\x7d"),
    (106, .template "\x7bvalue\x7d m below surface"), (200, .fixed "entire atmosphere")]

end Tables

end GribCatalog
