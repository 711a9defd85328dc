import GribCatalog.Json.Decode
import GribCatalog.Text.Lowercase
import GribCatalog.Text.Split

/-!
Which of several records answers for a cell that they share.
-/

namespace GribCatalog

inductive DuplicatePolicy
  | lastWins
  | firstWins
deriving DecidableEq, Repr

namespace DuplicatePolicy

def name : DuplicatePolicy → String
  | lastWins => "last-wins"
  | firstWins => "first-wins"

def ofName? : String → Option DuplicatePolicy
  | "last-wins" => some lastWins
  | "first-wins" => some firstWins
  | _ => none

/-- Reads a name in any case, with underscores for hyphens or without its second word. -/
def parse? (text : String) : Option DuplicatePolicy :=
  match String.ofList ((Text.lower text.toList).map fun c => if c = '_' then '-' else c) with
  | "last-wins" | "last" => some lastWins
  | "first-wins" | "first" => some firstWins
  | _ => none

/-- Whether a record at `position` takes a cell from the one at `held` that came before it. -/
def replaces (policy : DuplicatePolicy) (held position : Nat) : Bool :=
  match policy with
  | lastWins => held ≤ position
  | firstWins => position < held

def toJson (p : DuplicatePolicy) : Json :=
  .ofString p.name

def ofJson? (j : Json) : Option DuplicatePolicy :=
  j.unitChoice?.bind ofName?

end DuplicatePolicy

end GribCatalog
