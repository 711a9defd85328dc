import GribCatalog.Bytes

/-!
Trees of files. A place in a tree is given by the names on the way to it from the root.
-/

namespace GribCatalog

inductive FileTree
  /-- A file, with its bytes if they can be read. -/
  | file (contents : Option Bytes)
  | directory (entries : List (String × FileTree))

namespace FileTree

def isDirectory : FileTree → Bool
  | directory _ => true
  | file _ => false

def entries : FileTree → List (String × FileTree)
  | directory es => es
  | file _ => []

def at? (t : FileTree) : List String → Option FileTree
  | [] => some t
  | name :: names => (t.entries.lookup name).bind fun t => t.at? names

/-- Entries with what `name` stands for replaced, or added at the end. -/
def setEntry (name : String) (t : FileTree) : List (String × FileTree) → List (String × FileTree)
  | [] => [(name, t)]
  | e :: es => if e.1 = name then (name, t) :: es else e :: setEntry name t es

/-- The tree with another one at a place, and with directories on the way to it. -/
def put (new : FileTree) : List String → FileTree → FileTree
  | [], _ => new
  | name :: names, t =>
    let old := (t.entries.lookup name).getD (directory [])
    directory (setEntry name (new.put names old) t.entries)

mutual

/-- The places of all files: depth first, entries by name. -/
def places : FileTree → List (List String)
  | file _ => [[]]
  | directory es =>
    ((entryPlaces es).mergeSort fun a b => (compare a.1 b.1).isLE).flatMap fun (name, below) =>
      below.map (name :: ·)

def entryPlaces : List (String × FileTree) → List (String × List (List String))
  | [] => []
  | (name, t) :: es => (name, t.places) :: entryPlaces es

end

end FileTree

end GribCatalog
