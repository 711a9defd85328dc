/-!
JSON texts as trees. A number is kept as it is written, and the members of an object in their order,
repeated ones too.
-/

namespace GribCatalog

/-- A value in a JSON text. A string or a member's name is `none` where an escape in it stands for
half of a character. -/
inductive Json
  | null
  | bool (b : Bool)
  | number (numeral : String)
  | string (s : Option String)
  | array (items : List Json)
  | object (members : List (Option String × Json))

namespace Json

instance : Inhabited Json := ⟨null⟩

def ofString (s : String) : Json :=
  string (some s)

def ofMembers (members : List (String × Json)) : Json :=
  object (members.map fun (name, value) => (some name, value))

mutual

def depth : Json → Nat
  | array items => depthItems items + 1
  | object members => depthMembers members + 1
  | _ => 0

def depthItems : List Json → Nat
  | [] => 0
  | item :: items => max item.depth (depthItems items)

def depthMembers : List (Option String × Json) → Nat
  | [] => 0
  | (_, value) :: members => max value.depth (depthMembers members)

end

end Json

end GribCatalog
