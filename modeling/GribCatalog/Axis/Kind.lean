import GribCatalog.Json.Decode

/-!
Kinds of axes. Values of different kinds never share an axis.
-/

namespace GribCatalog

inductive AxisKind
  /-- Offset of a forecast from its reference time. -/
  | time
  /-- Period that a product was accumulated or averaged over. -/
  | timeInterval
  /-- Reference time of a run. -/
  | runtime
  | vertical
  | ensemble
  | custom (name : String)
deriving DecidableEq, Repr

namespace AxisKind

def text : AxisKind → String
  | time => "time"
  | timeInterval => "time_interval"
  | runtime => "runtime"
  | vertical => "vertical"
  | ensemble => "ensemble"
  | custom name => "custom:" ++ name

def toJson : AxisKind → Json
  | custom name => .ofMembers [("custom", .ofString name)]
  | kind => .ofString kind.text

def ofName? : String → Option AxisKind
  | "time" => some time
  | "time_interval" => some timeInterval
  | "runtime" => some runtime
  | "vertical" => some vertical
  | "ensemble" => some ensemble
  | _ => none

def ofJson? (j : Json) : Option AxisKind :=
  match j.choice? with
  | some ("custom", some name) => name.string?.map custom
  | _ => j.unitChoice?.bind ofName?

end AxisKind

end GribCatalog
