import GribCatalog.Binary64.Reading
import GribCatalog.Yaml.Basic
import GribCatalog.Yaml.Scalar

/-!
What scalars stand for. A plain one may be null, a truth value or a number; a tag says what any
other one is.
-/

namespace GribCatalog.Yaml

def isNullWord (s : String) : Bool :=
  s = "null" || s = "Null" || s = "NULL" || s = "~"

def boolOfWord? (s : String) : Option Bool :=
  if s = "true" || s = "True" || s = "TRUE" then some true
  else if s = "false" || s = "False" || s = "FALSE" then some false
  else none

def digit? (radix : Nat) (ch : Char) : Option Nat :=
  (Json.hexDigit? ch).filter (· < radix)

def naturalIn? (radix : Nat) (cs : List Char) : Option Nat :=
  if cs = [] then none
  else cs.foldlM (fun n ch => (digit? radix ch).map fun d => radix * n + d) 0

/-- A numeral that begins with a needless zero is text. -/
def hasNeedlessZero (cs : List Char) : Bool :=
  match cs with
  | '0' :: d :: ds => (d :: ds).all Char.isDigit
  | _ => false

/-- Number of digits in the radix that is marked, or in ten. -/
def magnitude? (cs : List Char) : Option Nat :=
  match cs with
  | '0' :: 'x' :: cs => naturalIn? 16 cs
  | '0' :: 'o' :: cs => naturalIn? 8 cs
  | '0' :: 'b' :: cs => naturalIn? 2 cs
  | cs => if hasNeedlessZero cs then none else naturalIn? 10 cs

def integer? : List Char → Option Int
  | '+' :: cs => (magnitude? cs).map Int.ofNat
  | '-' :: cs => (magnitude? cs).map fun n => -(n : Int)
  | cs => (magnitude? cs).map Int.ofNat

/-- Finite numbers, and words for the others. -/
def real? (cs : List Char) : Option Binary64 :=
  let s := String.ofList cs
  let unsigned :=
    match cs with
    | '+' :: rest => rest
    | _ => cs
  let word := String.ofList unsigned
  if word = ".inf" || word = ".Inf" || word = ".INF" then some .infinity
  else if s = "-.inf" || s = "-.Inf" || s = "-.INF" then some (Binary64.withSign true .infinity)
  else if s = ".nan" || s = ".NaN" || s = ".NAN" then some .nan
  else if cs ≠ unsigned && (unsigned.head? = some '+' || unsigned.head? = some '-') then none
  else ((Binary64.read? unsigned).filter Binary64.isFinite).map Binary64.unsignedZero

/-- Integers that a tree may hold. -/
def isWord (n : Int) : Bool :=
  -(Nat.pow 2 63 : Int) ≤ n && n < Nat.pow 2 64

/-- Integers that are refused instead of read as real numbers. -/
def isDoubleWord (n : Int) : Bool :=
  -(Nat.pow 2 127 : Int) ≤ n && n < Nat.pow 2 128

/-- The number of an integer's text, `none` inside if it is none, or if it is out of all ranges. -/
def wordOf? (cs : List Char) : Option (Option Yaml) :=
  match (integer? cs).filter isDoubleWord with
  | some n => if isWord n then some (some (integer n)) else none
  | none => some none

def unsignedPart : List Char → List Char
  | '+' :: cs => cs
  | '-' :: cs => cs
  | cs => cs

def ofPlain? (s : String) : Option Yaml :=
  if s = "" || isNullWord s then some null
  else
    match boolOfWord? s with
    | some b => some (bool b)
    | none =>
      (wordOf? s.toList).map fun word =>
        word.getD <|
          if hasNeedlessZero (unsignedPart s.toList) then text s
          else ((real? s.toList).map real).getD (text s)

def ofScalar? (s : Scalar) : Option Yaml :=
  if s.isPlain then ofPlain? s.text else some (text s.text)

/-- The meaning of a scalar with a tag of the standard's own. -/
def ofTagged? (tag : String) (s : Scalar) : Option Yaml :=
  if tag = "tag:yaml.org,2002:bool" then (boolOfWord? s.text).map bool
  else if tag = "tag:yaml.org,2002:int" then (wordOf? s.text.toList).bind id
  else if tag = "tag:yaml.org,2002:float" then (real? s.text.toList).map real
  else if tag = "tag:yaml.org,2002:null" then if isNullWord s.text then some null else none
  else some (text s.text)

/-- The name of a tag that a tree keeps: one that begins with an exclamation mark. -/
def ownTag? (tag : String) : Option String :=
  match tag.toList with
  | '!' :: c :: cs => some (String.ofList (c :: cs))
  | ['!'] => some "!"
  | _ => none

end GribCatalog.Yaml
