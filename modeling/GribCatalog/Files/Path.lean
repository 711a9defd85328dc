import GribCatalog.Text.Split

/-!
Paths: names with slashes between them. A name that is repeated after a dot or a second slash is the
same name, so paths are compared by their components.
-/

namespace GribCatalog.Path

def pieces (path : String) : List String :=
  (Text.pieces '/' path.toList).map String.ofList

def isAbsolute (path : String) : Bool :=
  path.toList.head? = some '/'

def isIdle (piece : String) : Bool :=
  piece = "" || piece = "."

/-- The root, or a dot that a path begins with, and every piece that leads somewhere. -/
def components (path : String) : List String :=
  let steps := (pieces path).filter fun piece => !isIdle piece
  if isAbsolute path then "/" :: steps
  else if (pieces path).head? = some "." then "." :: steps
  else steps

def same (a b : String) : Bool :=
  components a = components b

def join (directory name : String) : String :=
  if directory.toList.getLast? = some '/' then directory ++ name
  else directory ++ "/" ++ name

/-- The paths that are none of `known`, each at its first place only. -/
def fresh (known : List String) : List String → List String
  | [] => []
  | path :: paths =>
    if known.any (same path) then fresh known paths
    else path :: fresh (known ++ [path]) paths

def nameLimit : Nat := 255

def isName (name : String) : Bool :=
  !isIdle name && name ≠ ".." && name.utf8ByteSize ≤ nameLimit &&
    name.toList.all fun c => c ≠ '/' && c ≠ '\x00'

end GribCatalog.Path
