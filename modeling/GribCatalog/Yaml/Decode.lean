import GribCatalog.Yaml.Basic

/-!
Typed readings of YAML trees. Tags are passed over.
-/

namespace GribCatalog.Yaml

def untagged : Yaml → Yaml
  | tagged _ value => value.untagged
  | tree => tree

def text? (y : Yaml) : Option String :=
  match y.untagged with
  | text s => some s
  | _ => none

def bool? (y : Yaml) : Option Bool :=
  match y.untagged with
  | bool b => some b
  | _ => none

def word? (y : Yaml) : Option Nat :=
  match y.untagged with
  | integer n => if 0 ≤ n ∧ n < Nat.pow 2 64 then some n.toNat else none
  | _ => none

/-- The items of a sequence. Null has none. -/
def list? {α : Type} (decode : Yaml → Option α) (y : Yaml) : Option (List α) :=
  match y.untagged with
  | sequence items => items.mapM decode
  | null => some []
  | _ => none

def option? {α : Type} (decode : Yaml → Option α) : Yaml → Option (Option α)
  | null => some none
  | y => (decode y).map some

/-- The members of a mapping by their names. Null has none. -/
def fields? (y : Yaml) : Option (List (String × Yaml)) :=
  match y.untagged with
  | mapping members => members.mapM fun (key, value) => key.text?.map fun name => (name, value)
  | null => some []
  | _ => none

def field? {α : Type} (members : List (String × Yaml)) (name : String) (decode : Yaml → Option α)
    (dflt : α) : Option α :=
  match members.filter fun m => m.1 = name with
  | [] => some dflt
  | [(_, value)] => decode value
  | _ => none

end GribCatalog.Yaml
