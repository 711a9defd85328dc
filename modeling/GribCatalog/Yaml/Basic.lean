import GribCatalog.Binary64.Basic

/-!
YAML documents as trees, and one laid over another. Members of a mapping keep their order.
-/

namespace GribCatalog

inductive Yaml
  | null
  | bool (b : Bool)
  | integer (n : Int)
  | real (x : Binary64)
  | text (s : String)
  | sequence (items : List Yaml)
  | mapping (members : List (Yaml × Yaml))
  | tagged (tag : String) (value : Yaml)

namespace Yaml

instance : Inhabited Yaml := ⟨null⟩

mutual

/-- Whether two trees are equal. Both zeros are, and the members of a mapping have no order among
each other. -/
def alike : Yaml → Yaml → Bool
  | null, null => true
  | bool a, bool b => a = b
  | integer a, integer b => a = b
  | real a, real b => a.unsignedZero = b.unsignedZero
  | text a, text b => a = b
  | sequence as, sequence bs => alikeItems as bs
  | mapping as, mapping bs => alikeMembers as bs
  | tagged s a, tagged t b => s = t && a.alike b
  | _, _ => false

def alikeItems : List Yaml → List Yaml → Bool
  | [], [] => true
  | a :: as, b :: bs => a.alike b && alikeItems as bs
  | _, _ => false

/-- Takes from the one members the first that is equal to each of the others. -/
def alikeMembers : List (Yaml × Yaml) → List (Yaml × Yaml) → Bool
  | [], bs => bs.isEmpty
  | (k, v) :: as, bs =>
    bs.any (fun b => k.alike b.1 && v.alike b.2) &&
      alikeMembers as (bs.eraseP fun b => k.alike b.1 && v.alike b.2)

end

def DistinctKeys (members : List (Yaml × Yaml)) : Prop :=
  members.Pairwise fun m n => ¬ m.1.alike n.1

instance (members : List (Yaml × Yaml)) : Decidable (DistinctKeys members) :=
  inferInstanceAs (Decidable (members.Pairwise fun m n => ¬ m.1.alike n.1))

/-- The members with the value of a key changed by `f`, or with a new member if there is none. -/
def update (key : Yaml) (f : Yaml → Yaml) (new : Yaml) :
    List (Yaml × Yaml) → List (Yaml × Yaml)
  | [] => [(key, new)]
  | (k, v) :: rest => if key.alike k then (k, f v) :: rest else (k, v) :: update key f new rest

mutual

/-- A tree laid over a base. Mappings are laid over each other member by member, null leaves the
base as it is, and all else takes its place. -/
def overlay : Yaml → Yaml → Yaml
  | mapping members, mapping base => mapping (overlayMembers members base)
  | null, base => base
  | tree, _ => tree

def overlayMembers : List (Yaml × Yaml) → List (Yaml × Yaml) → List (Yaml × Yaml)
  | [], base => base
  | (key, value) :: rest, base =>
    overlayMembers rest (update key (fun v => overlay value v) value base)

end

end Yaml

end GribCatalog
