/-!
Decimal numerals. A natural number is read back from the digits written for it.
-/

namespace GribCatalog.Text

def digits (n : Nat) : List Char :=
  Nat.toDigits 10 n

def integerDigits (n : Int) : List Char :=
  if n < 0 then '-' :: digits n.natAbs else digits n.natAbs

def natural? (cs : List Char) : Option Nat :=
  if cs ≠ [] ∧ cs.all Char.isDigit then some (Nat.ofDigitChars 10 cs 0) else none

/-- A numeral with at most one sign before its digits. -/
def integer? : List Char → Option Int
  | '+' :: cs => (natural? cs).map Int.ofNat
  | '-' :: cs => (natural? cs).map fun n => -(n : Int)
  | cs => (natural? cs).map Int.ofNat

/-- A numeral below `limit`, with at most a plus sign before its digits. -/
def unsigned? (limit : Nat) (cs : List Char) : Option Nat :=
  (match cs with
    | '+' :: cs => natural? cs
    | cs => natural? cs).filter (· < limit)

/-- A numeral in the range of 64-bit signed words. -/
def int64? (cs : List Char) : Option Int64 :=
  ((integer? cs).filter fun n => -(Nat.pow 2 63 : Int) ≤ n && n < Nat.pow 2 63).map Int64.ofInt

/-- `n` in decimal, padded with zeros to `width` digits. -/
def padded (width n : Nat) : List Char :=
  List.replicate (width - (digits n).length) '0' ++ digits n

theorem all_isDigit_digits (n : Nat) : (digits n).all Char.isDigit = true :=
  List.all_eq_true.2 fun _ hc => Nat.isDigit_of_mem_toDigits (by decide) (by decide) hc

theorem digits_ne_nil (n : Nat) : digits n ≠ [] :=
  Nat.toDigits_ne_nil

theorem natural?_digits (n : Nat) : natural? (digits n) = some n := by
  rw [natural?, if_pos ⟨digits_ne_nil n, all_isDigit_digits n⟩]
  simp [digits, Nat.ofDigitChars_ten_toDigits]

end GribCatalog.Text
