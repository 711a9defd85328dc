import GribCatalog.Axis.Kind
import GribCatalog.Axis.Value
import GribCatalog.Binary64.Reading
import GribCatalog.Calendar.Rfc3339
import GribCatalog.Text.Split

/-!
Reading the text of a value on an axis of some kind. Blanks are allowed around it and around its two
parts, if it has two.
-/

namespace GribCatalog.AxisValue

/-- Both parts of a text around the first `sep`, each read after trimming. -/
def readPair? {α β : Type} (sep : Char) (first : List Char → Option α) (second : List Char → Option β)
    (cs : List Char) : Option (α × β) := do
  let (a, b) ← Text.splitOnce? sep cs
  let a ← first (Text.trim a)
  let b ← second (Text.trim b)
  some (a, b)

def readOctet? (cs : List Char) : Option UInt8 :=
  (Text.unsigned? (Nat.pow 2 8) cs).map UInt8.ofNat

def readNumber? (cs : List Char) : Option UInt16 :=
  (Text.unsigned? (Nat.pow 2 16) cs).map UInt16.ofNat

def ofTrimmed? : AxisKind → List Char → Option AxisValue
  | .time, cs => (Text.int64? cs).map offset
  | .timeInterval, cs =>
    (readPair? '-' Text.int64? Text.int64? cs).map fun (start, stop) => period ⟨start, stop⟩
  | .runtime, cs => (Instant.ofRfc3339? cs).map runtime
  | .vertical, cs =>
    (readPair? ':' readOctet? Binary64.read? cs).bind fun (kind, value) => ofSurface? kind value
  | .ensemble, cs =>
    (readPair? '/' readOctet? readNumber? cs).map fun (kind, number) => member ⟨kind, number⟩
  | .custom _, cs =>
    match Text.int64? cs with
    | some n => some (integer n)
    | none => some (text (String.ofList cs))

def ofText? (kind : AxisKind) (text : String) : Option AxisValue :=
  ofTrimmed? kind (Text.trim text.toList)

end GribCatalog.AxisValue
