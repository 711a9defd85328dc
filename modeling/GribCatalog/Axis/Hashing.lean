import GribCatalog.Axis.Value

/-!
What a value gives to a hasher: the place of its variant among the variants, and then its parts.
-/

namespace GribCatalog.AxisValue

/-- The words given to a hasher. An instant gives its day, the second of the day and the
nanoseconds, a level the bits of its value, and a text ends with a word that is no byte of a text. -/
def hashWords : AxisValue → List Int
  | offset n => [0, n.toInt]
  | period p => [1, p.start.toInt, p.stop.toInt]
  | runtime t => [2, t.seconds / 86400, t.seconds % 86400, t.nanos]
  | level l => [3, l.kind.toNat, l.value.word.toNat]
  | member m => [4, m.kind.toNat, m.number.toNat]
  | integer n => [5, n.toInt]
  | text s => 6 :: (s.toUTF8.data.toList.map fun byte => (byte.toNat : Int)) ++ [255]

def hashWith {σ : Type} (write : σ → Int → σ) (start : σ) (v : AxisValue) : σ :=
  v.hashWords.foldl write start

end GribCatalog.AxisValue
