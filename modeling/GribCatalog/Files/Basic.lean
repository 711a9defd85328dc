import GribCatalog.Files.Path
import GribCatalog.Files.Tree

/-!
A file system as a program finds it: a tree, and the directory where relative paths begin.
-/

namespace GribCatalog

structure FileSystem where
  root : FileTree := .directory []
  /-- Place of the directory where relative paths begin. -/
  here : List String := []

namespace FileSystem

/-- Where one piece of a path leads. Only directories lead on, and the root leads up to itself. -/
def step? (fs : FileSystem) (place : List String) (piece : String) : Option (List String) := do
  let t ← fs.root.at? place
  if !t.isDirectory then none
  else if Path.isIdle piece then some place
  else if piece = ".." then some place.dropLast
  else
    let _ ← t.entries.lookup piece
    some (place ++ [piece])

def start (fs : FileSystem) (path : String) : List String :=
  if Path.isAbsolute path then [] else fs.here

/-- The place that a path leads to. The empty path leads nowhere. -/
def place? (fs : FileSystem) (path : String) : Option (List String) :=
  if path = "" then none else (Path.pieces path).foldlM fs.step? (fs.start path)

def find? (fs : FileSystem) (path : String) : Option FileTree :=
  (fs.place? path).bind fs.root.at?

def isDirectory (fs : FileSystem) (path : String) : Bool :=
  (fs.find? path).any FileTree.isDirectory

/-- The bytes of the file at a path. -/
def contents? (fs : FileSystem) (path : String) : Option Bytes :=
  match fs.find? path with
  | some (.file contents) => contents
  | _ => none

def textOf? (bs : Bytes) : Option String :=
  String.fromUTF8? ⟨bs.toArray⟩

def text? (fs : FileSystem) (path : String) : Option String :=
  (fs.contents? path).bind textOf?

/-- The files in a directory and below it: the path and the name of each. -/
def filesIn (fs : FileSystem) (path : String) : List (String × String) :=
  match fs.find? path with
  | some t => t.places.map fun names => (names.foldl Path.join path, names.getLast?.getD "")
  | none => []

/-- The place that a path names, whether there is anything or not. -/
def spot (fs : FileSystem) (path : String) : List String :=
  (Path.pieces path).foldl (fun place piece =>
    if Path.isIdle piece then place
    else if piece = ".." then place.dropLast
    else place ++ [piece]) (fs.start path)

/-- Puts a tree at a path in place of what was there, with all directories that it takes. -/
def put (fs : FileSystem) (path : String) (t : FileTree) : FileSystem :=
  { fs with root := t.put (fs.spot path) fs.root }

/-- Writes a file into a directory that there is. A directory is not written over. -/
def write? (fs : FileSystem) (path : String) (contents : Bytes) : Option FileSystem := do
  let pieces := Path.pieces path
  let name ← pieces.getLast?
  let place ← pieces.dropLast.foldlM fs.step? (fs.start path)
  let directory ← fs.root.at? place
  if !directory.isDirectory || !Path.isName name then none
  else if (directory.entries.lookup name).any FileTree.isDirectory then none
  else some { fs with root := FileTree.put (.file (some contents)) (place ++ [name]) fs.root }

end FileSystem

end GribCatalog
