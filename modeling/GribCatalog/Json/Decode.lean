import GribCatalog.Binary64.Reading
import GribCatalog.Json.Basic

/-!
Typed readings of JSON values. A record is an object of its fields in any order, among others that
are passed over, or the array of its fields from the first on.
-/

namespace GribCatalog.Json

def string? : Json → Option String
  | string s => s
  | _ => none

def bool? : Json → Option Bool
  | bool b => some b
  | _ => none

/-- A numeral of digits alone, for a number below `limit`. -/
def natural? (limit : Nat) : Json → Option Nat
  | number n => (Text.natural? n.toList).filter (· < limit)
  | _ => none

/-- A numeral of digits, with a sign or without, for a 64-bit signed word. Zero has no sign. -/
def int64? : Json → Option Int64
  | number n =>
    match n.toList with
    | '-' :: cs => if Text.natural? cs = some 0 then none else Text.int64? ('-' :: cs)
    | cs => Text.int64? cs
  | _ => none

/-- Any numeral whose nearest binary64 number is finite. -/
def binary64? : Json → Option Binary64
  | number n => (Binary64.read? n.toList).filter Binary64.isFinite
  | _ => none

def elements? : Json → Option (List Json)
  | array items => some items
  | _ => none

mutual

/-- Whether every string in a value is readable and every number has a finite binary64 near it. -/
def isPlain : Json → Bool
  | string s => s.isSome
  | number n => ((Binary64.read? n.toList).filter Binary64.isFinite).isSome
  | array items => arePlain items
  | object members => havePlain members
  | _ => true

def arePlain : List Json → Bool
  | [] => true
  | item :: items => item.isPlain && arePlain items

def havePlain : List (Option String × Json) → Bool
  | [] => true
  | (name, value) :: members => name.isSome && value.isPlain && havePlain members

end

def list? {α : Type} (decode : Json → Option α) (j : Json) : Option (List α) :=
  j.elements?.bind fun items => items.mapM decode

def option? {α : Type} (decode : Json → Option α) : Json → Option (Option α)
  | null => some none
  | j => (decode j).map some

/-- The value of the one member of a name, `none` inside if there is none. -/
def field? (name : String) (members : List (Option String × Json)) : Option (Option Json) :=
  match members.filter fun m => m.1 = some name with
  | [] => some none
  | [(_, value)] => some (some value)
  | _ => none

/-- The fields of a record by their names. A field that is given twice, an unreadable name and an
array of more items than there are fields are refused. -/
def fields? (names : List String) : Json → Option (List (Option Json))
  | object members =>
    if members.any fun m => m.1.isNone then none
    else names.mapM fun name => field? name members
  | array items =>
    if items.length ≤ names.length then
      some (items.map some ++ List.replicate (names.length - items.length) none)
    else none
  | _ => none

def orDefault {α : Type} (decode : Json → Option α) (dflt : α) : Option Json → Option α
  | none => some dflt
  | some j => decode j

/-- One of several alternatives: its name alone, or an object whose one member has its name. -/
def choice? : Json → Option (String × Option Json)
  | string (some name) => some (name, none)
  | object [(some name, value)] => some (name, some value)
  | _ => none

/-- An alternative that holds nothing, so that only null may stand for its contents. -/
def unitChoice? (j : Json) : Option String :=
  match j.choice? with
  | some (name, none) => some name
  | some (name, some null) => some name
  | _ => none

end GribCatalog.Json
