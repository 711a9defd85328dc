import GribCatalog.Axis.Basic
import GribCatalog.Calendar.Rfc3339
import GribCatalog.Json.Printer

/-!
Axes and their values as JSON. A value is tagged with its variant. Whatever comes before the tag has
to be kept until the tag is read, and is nested no deeper than 127 levels.
-/

namespace GribCatalog

/-- Levels of arrays and objects that a text may have where nothing is passed over. -/
def nestingLimit : Nat := 127

def Period.toJson (p : Period) : Json :=
  .ofMembers [("start", .ofInt p.start.toInt), ("end", .ofInt p.stop.toInt)]

def Period.ofJson? (j : Json) : Option Period :=
  match j.fields? ["start", "end"] with
  | some [some start, some stop] => do
    let start ← start.int64?
    let stop ← stop.int64?
    some ⟨start, stop⟩
  | _ => none

def Instant.toJson (t : Instant) : Json :=
  .ofString (String.ofList t.zuluText)

def Instant.ofJson? (j : Json) : Option Instant :=
  j.string?.bind fun s => Instant.ofLenient? s.toList

def Level.toJson (l : Level) : Json :=
  .ofMembers [("level_type", .ofNat l.kind.toNat), ("value", .ofBinary64 l.value)]

def Level.ofJson? (j : Json) : Option Level :=
  match j.fields? ["level_type", "value"] with
  | some [some kind, some value] => do
    let kind ← kind.natural? (Nat.pow 2 8)
    let value ← value.binary64?
    Level.mk? (UInt8.ofNat kind) value
  | _ => none

def Member.toJson (m : Member) : Json :=
  .ofMembers [("kind", .ofNat m.kind.toNat), ("number", .ofNat m.number.toNat)]

def Member.ofJson? (j : Json) : Option Member :=
  match j.fields? ["kind", "number"] with
  | some [some kind, some number] => do
    let kind ← kind.natural? (Nat.pow 2 8)
    let number ← number.natural? (Nat.pow 2 16)
    some ⟨UInt8.ofNat kind, UInt16.ofNat number⟩
  | _ => none

namespace AxisValue

def tag : AxisValue → String
  | offset _ => "offset"
  | period _ => "interval"
  | runtime _ => "runtime"
  | level _ => "level"
  | member _ => "ensemble"
  | integer _ => "int"
  | text _ => "text"

def contentToJson : AxisValue → Json
  | offset n => .ofInt n.toInt
  | period p => p.toJson
  | runtime t => t.toJson
  | level l => l.toJson
  | member m => m.toJson
  | integer n => .ofInt n.toInt
  | text s => .ofString s

def toJson (v : AxisValue) : Json :=
  .ofMembers [("type", .ofString v.tag), ("value", v.contentToJson)]

def ofContent? (tag : String) (content : Json) : Option AxisValue :=
  match tag with
  | "offset" => content.int64?.map offset
  | "interval" => (Period.ofJson? content).map period
  | "runtime" => (Instant.ofJson? content).map runtime
  | "level" => (Level.ofJson? content).map level
  | "ensemble" => (Member.ofJson? content).map member
  | "int" => content.int64?.map integer
  | "text" => content.string?.map text
  | _ => none

/-- Whether the tag comes before the content. -/
def tagFirst : Json → Bool
  | .object members =>
    ((members.filterMap Prod.fst).find? fun name => name = "type" || name = "value") = some "type"
  | _ => true

/-- Whether a value can be kept at some level: readable strings, finite numbers, and few levels. -/
def keepable (level : Nat) (content : Json) : Bool :=
  level + content.depth ≤ nestingLimit && content.isPlain

/-- Reads a value whose own object is at `level`, counted from one. -/
def ofJsonAt? (level : Nat) (j : Json) : Option AxisValue :=
  match j.fields? ["type", "value"] with
  | some [some tag, some content] =>
    if tagFirst j || keepable level content then
      tag.unitChoice?.bind fun tag => ofContent? tag content
    else none
  | _ => none

def ofJson? (j : Json) : Option AxisValue :=
  ofJsonAt? 1 j

end AxisValue

namespace Axis

def toJson (a : Axis) : Json :=
  .ofMembers [("name", .ofString a.name), ("kind", a.kind.toJson),
    ("values", .array (a.values.map AxisValue.toJson))]

def ofJsonAt? (level : Nat) (j : Json) : Option Axis :=
  match j.fields? ["name", "kind", "values"] with
  | some [some name, some kind, some values] => do
    let name ← name.string?
    let kind ← AxisKind.ofJson? kind
    let values ← values.list? (AxisValue.ofJsonAt? (level + 2))
    some ⟨name, kind, values⟩
  | _ => none

def ofJson? (j : Json) : Option Axis :=
  ofJsonAt? 1 j

end Axis

end GribCatalog
