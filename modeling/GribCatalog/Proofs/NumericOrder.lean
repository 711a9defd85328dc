import GribCatalog.Proofs.Rounding
import Mathlib.Data.Int.ConditionallyCompleteOrder
import Mathlib.Order.ConditionallyCompleteLattice.Basic
import Mathlib.Order.WithBot
import Mathlib.Order.Monotone.Basic

/-! The order of binary64 words. Ranks order all words as their bits do when those of negative
numbers are turned, and among numbers with one zero they order the words by what they stand for. -/

namespace GribCatalog.Binary64

/-! ### Bits -/

/-- The signed word that words are compared by: the bits of a negative number, but for its sign, are
turned. -/
def totalKey (x : Binary64) : Int64 :=
  x.word.toInt64 ^^^ ((x.word.toInt64 >>> 63).toUInt64 >>> 1).toInt64

section Sign

variable {b : BitVec 64}

theorem sshiftRight_of_msb (h : b.msb = true) : b.sshiftRight 63 = BitVec.allOnes 64 := by
  have hge := BitVec.msb_eq_true_iff_two_mul_ge.mp h
  have hzero : ~~~b >>> 63 = 0#64 := by
    apply BitVec.eq_of_toNat_eq
    rw [BitVec.toNat_ushiftRight, BitVec.toNat_not, Nat.shiftRight_eq_div_pow,
      Nat.div_eq_of_lt (by omega)]
    rfl
  rw [BitVec.sshiftRight_eq_of_msb_true h, hzero]
  rfl

theorem sshiftRight_of_not_msb (h : b.msb = false) : b.sshiftRight 63 = 0#64 := by
  have hlt := BitVec.msb_eq_false_iff_two_mul_lt.mp h
  apply BitVec.eq_of_toNat_eq
  rw [BitVec.sshiftRight_eq_of_msb_false h, BitVec.toNat_ushiftRight, Nat.shiftRight_eq_div_pow,
    Nat.div_eq_of_lt (by omega)]
  rfl

end Sign

theorem xor_low {m : Nat} (h : m < 2 ^ 63) : (2 ^ 63 + m) ^^^ (2 ^ 63 - 1) = 2 ^ 64 - (m + 1) := by
  refine Nat.eq_of_testBit_eq fun i => ?_
  rw [Nat.testBit_xor, Nat.testBit_two_pow_sub_one, Nat.testBit_two_pow_sub_succ (by omega)]
  rcases Nat.lt_trichotomy i 63 with hi | rfl | hi
  · rw [Nat.testBit_two_pow_add_gt hi]
    simp [hi, Nat.lt_succ_of_lt hi]
  · rw [Nat.testBit_two_pow_add_eq]
    simp
  · have hword : 2 ^ 63 + m < 2 ^ i :=
      Nat.lt_of_lt_of_le (by omega) (Nat.pow_le_pow_right Nat.two_pos (show 64 ≤ i from hi))
    rw [Nat.testBit_lt_two_pow hword]
    simp [Nat.lt_asymm hi, Nat.not_lt.mpr (show 64 ≤ i from hi)]

theorem toInt_totalKey (x : Binary64) : x.totalKey.toInt = x.rank := by
  have hlt := x.word.toNat_lt
  have hkey : x.totalKey.toBitVec =
      x.word.toBitVec ^^^ (x.word.toBitVec.sshiftRight 63) >>> 1 := rfl
  rw [← Int64.toInt_toBitVec, hkey, BitVec.toInt_eq_toNat_cond, BitVec.toNat_xor]
  simp only [rank, isNegative, magnitude, Nat.pow_eq, decide_eq_true_eq]
  cases hmsb : x.word.toBitVec.msb with
  | true =>
    have hge : 2 ^ 63 ≤ x.word.toNat := by
      have := BitVec.msb_eq_true_iff_two_mul_ge.mp hmsb
      rw [UInt64.toNat_toBitVec] at this
      omega
    have hword : x.word.toNat = 2 ^ 63 + x.word.toNat % 2 ^ 63 := by omega
    have hturned : x.word.toNat ^^^ (2 ^ 63 - 1) = 2 ^ 64 - (x.word.toNat % 2 ^ 63 + 1) := by
      rw [← xor_low (Nat.mod_lt _ (Nat.two_pow_pos 63)), ← hword]
    rw [sshiftRight_of_msb hmsb, show (BitVec.allOnes 64 >>> 1).toNat = 2 ^ 63 - 1 from rfl,
      UInt64.toNat_toBitVec, hturned, if_pos hge]
    omega
  | false =>
    have hlt' := BitVec.msb_eq_false_iff_two_mul_lt.mp hmsb
    rw [UInt64.toNat_toBitVec] at hlt'
    rw [sshiftRight_of_not_msb hmsb, show ((0#64) >>> 1).toNat = 0 from rfl,
      UInt64.toNat_toBitVec, Nat.xor_zero, if_pos hlt', if_neg (by omega)]
    omega

/-- Ranks are in the order of the turned words. -/
theorem compare_totalKey (x y : Binary64) :
    compare x.totalKey y.totalKey = compare x.rank y.rank := by
  simp only [compare, compareOfLessAndEq, Int64.lt_iff_toInt_lt, ← Int64.toInt_inj, toInt_totalKey]

/-! ### Numbers -/

/-- What a word stands for, in units of `2 ^ -1074`. -/
def number (x : Binary64) : WithBot (WithTop ℤ) :=
  if x.isInfinite then if x.isNegative then ⊥ else ⊤
  else ((if x.isNegative then -(units x.magnitude : ℤ) else units x.magnitude : ℤ) : WithTop ℤ)

/-- A magnitude and the next one are as far apart as its exponent says. -/
theorem units_succ (m : Nat) : units (m + 1) = units m + 2 ^ (m / 2 ^ 52 - 1) := by
  by_cases hsmall : m + 1 < 2 ^ 52
  · rw [units_of_lt hsmall, units_of_lt (by omega), Nat.div_eq_of_lt (by omega)]
    rfl
  by_cases hleast : m + 1 = 2 ^ 52
  · rw [hleast, units_of_lt (show m < 2 ^ 52 by omega), units_of_le (Nat.le_refl _),
      Nat.div_eq_of_lt (show m < 2 ^ 52 by omega)]
    omega
  rw [units_of_le (show 2 ^ 52 ≤ m by omega), units_of_le (show 2 ^ 52 ≤ m + 1 by omega)]
  by_cases hlast : (m + 1) % 2 ^ 52 = 0
  · have hexponent : (m + 1) / 2 ^ 52 - 1 = m / 2 ^ 52 - 1 + 1 := by omega
    have hfraction : m % 2 ^ 52 = 2 ^ 52 - 1 := by omega
    rw [hexponent, hlast, hfraction, Nat.pow_succ]
    omega
  · have hexponent : (m + 1) / 2 ^ 52 = m / 2 ^ 52 := by omega
    have hfraction : (m + 1) % 2 ^ 52 = m % 2 ^ 52 + 1 := by omega
    rw [hexponent, hfraction, ← Nat.add_assoc, Nat.succ_mul]

theorem units_lt_succ (m : Nat) : units m < units (m + 1) :=
  units_succ m ▸ Nat.lt_add_of_pos_right (Nat.two_pow_pos _)

theorem units_strictMono : StrictMono units :=
  strictMono_nat_of_lt_succ units_lt_succ

/-- The number that a word would stand for without infinities. -/
def signedUnits (x : Binary64) : ℤ :=
  if x.isNegative then -(units x.magnitude : ℤ) else units x.magnitude

section Numbers

variable {x y : Binary64}

theorem signedUnits_of_isInfinite (h : x.isInfinite = true) :
    x.signedUnits = if x.isNegative then -(units infinite : ℤ) else units infinite := by
  rw [signedUnits, of_decide_eq_true h]

/-- Finite numbers are between the infinities. -/
theorem signedUnits_between (hnumber : x.isNaN = false) (hfinite : x.isInfinite = false) :
    -(units infinite : ℤ) < x.signedUnits ∧ x.signedUnits < units infinite := by
  have hne := of_decide_eq_false hfinite
  have hle := of_decide_eq_false hnumber
  have hlt : units x.magnitude < units infinite := units_strictMono (by omega)
  unfold signedUnits
  split <;> omega

theorem number_lt_iff_signedUnits (hx : x.isNaN = false) (hy : y.isNaN = false) :
    x.number < y.number ↔ x.signedUnits < y.signedUnits := by
  have hpos : 0 < units infinite := Nat.zero_lt_of_lt (units_lt_succ (infinite - 1))
  have hfinite {z : Binary64} (h : z.isInfinite = false) :
      z.number = (z.signedUnits : WithTop ℤ) := if_neg (by simp [h])
  have hinfinite {z : Binary64} (h : z.isInfinite = true) :
      z.number = if z.isNegative then ⊥ else ⊤ := if_pos h
  cases hxi : x.isInfinite <;> cases hyi : y.isInfinite
  · rw [hfinite hxi, hfinite hyi, WithBot.coe_lt_coe, WithTop.coe_lt_coe]
  · have hbetween := signedUnits_between hx hxi
    rw [hfinite hxi, hinfinite hyi, signedUnits_of_isInfinite hyi]
    cases y.isNegative
    · exact iff_of_true (WithBot.coe_lt_coe.mpr (WithTop.coe_lt_top _)) hbetween.2
    · exact iff_of_false not_lt_bot (Int.not_lt.mpr (Int.le_of_lt hbetween.1))
  · have hbetween := signedUnits_between hy hyi
    rw [hinfinite hxi, hfinite hyi, signedUnits_of_isInfinite hxi]
    cases x.isNegative
    · exact iff_of_false not_top_lt (Int.not_lt.mpr (Int.le_of_lt hbetween.2))
    · exact iff_of_true (WithBot.bot_lt_coe _) hbetween.1
  · rw [hinfinite hxi, hinfinite hyi, signedUnits_of_isInfinite hxi, signedUnits_of_isInfinite hyi]
    generalize units infinite = most at hpos
    cases x.isNegative <;> cases y.isNegative <;> simp [hpos]

/-- With one zero only, ranks are in the order of the numbers. -/
theorem signedUnits_lt_iff (hx : x.unsignedZero = x) (hy : y.unsignedZero = y) :
    x.signedUnits < y.signedUnits ↔ x.rank < y.rank := by
  have hpositive {z : Binary64} (h : z.unsignedZero = z) (hnegative : z.isNegative = true) :
      0 < z.magnitude := by
    refine Nat.pos_of_ne_zero fun hmagnitude => ?_
    have hisZero : z.isZero = true := decide_eq_true hmagnitude
    rw [← h, unsignedZero, if_pos hisZero] at hnegative
    cases hnegative
  have hunits := units_strictMono.lt_iff_lt (a := x.magnitude) (b := y.magnitude)
  have hunits' := units_strictMono.lt_iff_lt (a := y.magnitude) (b := x.magnitude)
  unfold signedUnits rank
  cases hxn : x.isNegative <;> cases hyn : y.isNegative <;>
    simp only [Bool.false_eq_true, if_false, if_true]
  · omega
  · have := units_strictMono (hpositive hy hyn)
    omega
  · have := units_strictMono (hpositive hx hxn)
    omega
  · omega

/-- Numbers of one zero are in the order of their ranks. -/
theorem number_lt_iff (hx : x.isNaN = false) (hy : y.isNaN = false) (hx' : x.unsignedZero = x)
    (hy' : y.unsignedZero = y) : x.number < y.number ↔ x.rank < y.rank :=
  (number_lt_iff_signedUnits hx hy).trans (signedUnits_lt_iff hx' hy')

theorem number_unsignedZero (x : Binary64) : x.unsignedZero.number = x.number := by
  unfold unsignedZero
  split
  · next hzero =>
    have hmagnitude : x.magnitude = 0 := of_decide_eq_true hzero
    have hfinite : x.isInfinite = false := by
      rw [isInfinite, hmagnitude]
      rfl
    refine Eq.symm ((if_neg (by simp [hfinite])).trans ?_)
    rw [hmagnitude]
    cases x.isNegative <;> rfl
  · rfl

end Numbers

end GribCatalog.Binary64
