import GribCatalog.Axis.Reading
import GribCatalog.Space.Basic

/-!
Queries: one `name=value` for every axis of a space, in any order.
-/

namespace GribCatalog

inductive QueryFault
  | noEquals (pair : String)
  | unknownDimension (name : String)
  | repeated (name : String)
  | incomplete (name : String)
  | invalidValue (kind : AxisKind) (value : String)
deriving DecidableEq, Repr

def QueryFault.message : QueryFault → String
  | noEquals pair => s!"expected name=value, got '{pair}'"
  | unknownDimension name => s!"index has no dimension named '{name}'"
  | repeated name => s!"dimension '{name}' given more than once"
  | incomplete name => s!"no value given for dimension '{name}'"
  | invalidValue kind value => s!"invalid {kind.text} value '{value}'"

namespace AxisValue

/-- The value that a text stands for. A text that stands for none is named without its outer blanks.
-/
def ofText (kind : AxisKind) (text : String) : Except QueryFault AxisValue :=
  match ofText? kind text with
  | some v => .ok v
  | none => .error (.invalidValue kind (String.ofList (Text.trim text.toList)))

end AxisValue

namespace Query

def addPair (s : Space) (given : List (Option AxisValue)) (pair : String) :
    Except QueryFault (List (Option AxisValue)) :=
  match Text.splitOnce? '=' pair.toList with
  | none => .error (.noEquals pair)
  | some (name, text) =>
    let name := String.ofList (Text.trim name)
    match s.axisNamed? name with
    | none => .error (.unknownDimension name)
    | some (i, axis) =>
      if (given.getD i none).isSome then .error (.repeated name)
      else (AxisValue.ofText axis.kind (String.ofList text)).map fun v => given.set i (some v)

/-- The value given for every axis, up to the first axis without one. -/
def complete (axes : List Axis) (given : List (Option AxisValue)) :
    Except QueryFault (List AxisValue) :=
  (given.zip axes).mapM fun (v, axis) =>
    match v with
    | some v => .ok v
    | none => .error (.incomplete axis.name)

/-- The values that pairs ask for, in the order of the axes. -/
def values (s : Space) (pairs : List String) : Except QueryFault (List AxisValue) := do
  let given ← pairs.foldlM (addPair s) (List.replicate s.rank none)
  complete s.axes given

end Query

end GribCatalog
