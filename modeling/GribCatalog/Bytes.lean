/-!
Byte strings and the big-endian words in them. A word read back from the bytes written for it is
the number modulo the width of the word.
-/

namespace GribCatalog

abbrev Bytes := List UInt8

namespace Bytes

/-- The number whose base 256 digits are the bytes, most significant first. -/
def word (bs : Bytes) : Nat :=
  bs.foldl (fun n b => 256 * n + b.toNat) 0

/-- The lowest `width` base 256 digits of a number, most significant first. -/
def ofWord : Nat → Nat → Bytes
  | 0, _ => []
  | width + 1, n => ofWord width (n / 256) ++ [UInt8.ofNat n]

def slice (bs : Bytes) (start len : Nat) : Bytes :=
  (bs.drop start).take len

def byteAt (bs : Bytes) (i : Nat) : UInt8 :=
  bs.getD i 0

/-- The `width` byte word that starts at byte `start`. -/
def wordAt (bs : Bytes) (start width : Nat) : Nat :=
  word (bs.slice start width)

/-- How many bytes come before the first occurrence of a non-empty `pat`, beyond the `skipped` ones
seen so far, and the bytes from there on. -/
def seek? (pat : Bytes) (skipped : Nat) : Bytes → Option (Nat × Bytes)
  | [] => none
  | b :: bs =>
    if pat.isPrefixOf (b :: bs) then some (skipped, b :: bs) else seek? pat (skipped + 1) bs

@[simp] theorem length_ofWord (width n : Nat) : (ofWord width n).length = width := by
  induction width generalizing n with
  | zero => rfl
  | succ w ih => simp [ofWord, ih]

theorem word_append (a : Bytes) (b : UInt8) : word (a ++ [b]) = 256 * word a + b.toNat := by
  simp [word]

theorem word_ofWord (width n : Nat) : word (ofWord width n) = n % Nat.pow 256 width := by
  induction width generalizing n with
  | zero => simp [ofWord, word, Nat.mod_one]
  | succ w ih =>
    change _ = n % (Nat.pow 256 w * 256)
    rw [ofWord, word_append, ih, Nat.mul_comm (Nat.pow 256 w) 256, Nat.mod_mul]
    simp
    omega

end Bytes

end GribCatalog
