import GribCatalog.Binary64.Rounding
import Mathlib.Algebra.Order.Ring.Nat

/-! Rounding to binary64. What a quotient is rounded to depends on the quotient alone,
every finite magnitude is what the number that it stands for is rounded to, and what is
too small or too great for all of them is rounded to zero or to infinity. -/

namespace GribCatalog

theorem nearestEven_mul {k : Nat} (hk : 0 < k) (num den : Nat) :
    nearestEven (num * k) (den * k) = nearestEven num den := by
  have hdouble (a b : Nat) : 2 * (a * k) < b * k ↔ 2 * a < b := by
    rw [← Nat.mul_assoc, Nat.mul_lt_mul_right hk]
  have hdouble' (a b : Nat) : b * k < 2 * (a * k) ↔ b < 2 * a := by
    rw [← Nat.mul_assoc, Nat.mul_lt_mul_right hk]
  simp only [nearestEven, Nat.mul_div_mul_right _ _ hk, Nat.mul_mod_mul_right, hdouble, hdouble']

theorem nearestEven_mul_self (q : Nat) {den : Nat} (h : 0 < den) :
    nearestEven (q * den) den = q := by
  simp [nearestEven, Nat.mul_div_cancel q h, h]

theorem nearestEven_bounds (num den : Nat) :
    num / den ≤ nearestEven num den ∧ nearestEven num den ≤ num / den + 1 := by
  rw [nearestEven]
  split <;> [skip; split] <;> omega

theorem nearestEven_of_lt {num den : Nat} (h : 2 * num < den) : nearestEven num den = 0 := by
  have hdiv : num / den = 0 := Nat.div_eq_of_lt (by omega)
  have hmod : num % den = num := Nat.mod_eq_of_lt (by omega)
  simp only [nearestEven, hdiv, hmod, if_pos h]

namespace Binary64

theorem roundMagnitude_mul {k : Nat} (hk : 0 < k) (num den : Nat) :
    roundMagnitude (num * k) (den * k) = roundMagnitude num den := by
  simp only [roundMagnitude, Nat.mul_right_comm _ k, Nat.mul_div_mul_right _ _ hk,
    nearestEven_mul hk]

/-- Less than half a unit is rounded to zero. -/
theorem roundMagnitude_of_lt {num den : Nat} (h : 2 * (num * 2 ^ 1074) < den) :
    roundMagnitude num den = 0 := by
  have hdiv : num * 2 ^ 1074 / den = 0 := Nat.div_eq_of_lt (by omega)
  simp only [roundMagnitude, Nat.pow_eq, hdiv, Nat.log2_zero, Nat.zero_sub, Nat.zero_mul,
    Nat.pow_zero, Nat.mul_one, nearestEven_of_lt h]
  exact Nat.min_eq_right (Nat.zero_le _)

theorem roundMagnitude_zero {den : Nat} (h : 0 < den) : roundMagnitude 0 den = 0 := by
  refine roundMagnitude_of_lt ?_
  rwa [Nat.zero_mul]

theorem le_log2_scaled {num den k : Nat} (p : Nat) (hden : 0 < den) (h : den * 2 ^ k ≤ num) :
    k + p ≤ Nat.log2 (num * Nat.pow 2 p / den) := by
  have hscaled : 2 ^ (k + p) ≤ num * Nat.pow 2 p / den := by
    rw [Nat.le_div_iff_mul_le hden, pow_add, Nat.mul_right_comm, Nat.mul_comm _ den]
    exact Nat.mul_le_mul_right _ h
  exact (Nat.le_log2 (Nat.ne_of_gt (Nat.lt_of_lt_of_le (Nat.two_pow_pos _) hscaled))).mpr hscaled

theorem min_infinite {k : Nat} (h : 1025 + 1074 ≤ k) (r : Nat) :
    min infinite ((k - 52) * Nat.pow 2 52 + r) = infinite :=
  Nat.min_eq_left (Nat.le_add_right_of_le (Nat.mul_le_mul_right _ (by omega)))

/-- What has more bits before its point than any finite number is rounded to infinity. -/
theorem roundMagnitude_of_le {num den : Nat} (hden : 0 < den) (h : den * 2 ^ 1025 ≤ num) :
    roundMagnitude num den = infinite :=
  min_infinite (le_log2_scaled 1074 hden h) _

theorem ofMagnitude_magnitude (x : Binary64) : ofMagnitude x.isNegative x.magnitude = x := by
  have hlt := x.word.toNat_lt
  have hword : (if x.isNegative then Nat.pow 2 63 + x.magnitude else x.magnitude) =
      x.word.toNat := by
    simp only [isNegative, magnitude, decide_eq_true_eq, Nat.pow_eq]
    split <;> omega
  rw [ofMagnitude, hword]
  exact congrArg mk UInt64.ofNat_toNat

theorem magnitude_ofMagnitude {negative : Bool} {m : Nat} (h : m < 2 ^ 63) :
    (ofMagnitude negative m).magnitude = m := by
  rw [magnitude, ofMagnitude, UInt64.toNat_ofNat']
  cases negative <;> simp only [Nat.pow_eq] <;> simp <;> omega

theorem isNegative_ofMagnitude {negative : Bool} {m : Nat} (h : m < 2 ^ 63) :
    (ofMagnitude negative m).isNegative = negative := by
  rw [isNegative, ofMagnitude, UInt64.toNat_ofNat']
  cases negative <;> simp only [Nat.pow_eq] <;> simp <;> omega

/-- Of the bits that are kept the first is the highest one that there is. -/
theorem div_lt_of_log2 (scaled den : Nat) :
    scaled / (den * 2 ^ (Nat.log2 (scaled / den) - 52)) < 2 ^ 53 := by
  rw [← Nat.div_div_eq_div_mul]
  refine Nat.div_lt_of_lt_mul ?_
  rw [← pow_add]
  exact Nat.lt_of_lt_of_le Nat.lt_log2_self (Nat.pow_le_pow_right Nat.two_pos (by omega))

theorem roundMagnitude_lt_infinite {num den : Nat} (h : num < den * 2 ^ 1023) :
    roundMagnitude num den < infinite := by
  obtain ⟨p, hp⟩ : ∃ p, p = 1074 := ⟨_, rfl⟩
  have hlt : num * Nat.pow 2 p / den < 2 ^ (1023 + p) := by
    refine Nat.div_lt_of_lt_mul ?_
    rw [pow_add, ← Nat.mul_assoc]
    exact Nat.mul_lt_mul_of_pos_right h (Nat.two_pow_pos p)
  have hlog : Nat.log2 (num * Nat.pow 2 p / den) < 1023 + p := by
    rcases Nat.eq_zero_or_pos (num * Nat.pow 2 p / den) with hzero | hpos
    · rw [hzero, Nat.log2_zero]
      omega
    · exact (Nat.log2_lt hpos.ne').mpr hlt
  have hround := (nearestEven_bounds (num * Nat.pow 2 p)
    (den * 2 ^ (Nat.log2 (num * Nat.pow 2 p / den) - 52))).2
  have hkept := div_lt_of_log2 (num * Nat.pow 2 p) den
  rw [roundMagnitude, ← hp]
  refine Nat.lt_of_le_of_lt (Nat.min_le_right _ _) ?_
  simp only [infinite, Nat.pow_eq] at *
  omega

theorem units_of_lt {m : Nat} (h : m < 2 ^ 52) : units m = m :=
  if_pos h

theorem units_of_le {m : Nat} (h : 2 ^ 52 ≤ m) :
    units m = (2 ^ 52 + m % 2 ^ 52) * 2 ^ (m / 2 ^ 52 - 1) :=
  if_neg (Nat.not_lt_of_le h)

/-- The bits of a number after its first, by its exponent. -/
theorem log2_units {m : Nat} (h : 2 ^ 52 ≤ m) : (units m).log2 = 52 + (m / 2 ^ 52 - 1) := by
  have hmod : m % 2 ^ 52 < 2 ^ 52 := Nat.mod_lt _ (Nat.two_pow_pos 52)
  have hpow : 0 < 2 ^ (m / 2 ^ 52 - 1) := Nat.two_pow_pos _
  rw [units_of_le h, Nat.log2_eq_iff (Nat.ne_of_gt (Nat.mul_pos (by omega) hpow))]
  constructor
  · rw [pow_add]
    exact Nat.mul_le_mul_right _ (Nat.le_add_right _ _)
  · rw [Nat.add_right_comm, pow_add, Nat.mul_lt_mul_right hpow]
    omega

/-- A finite magnitude is what the number that it stands for is rounded to. -/
theorem roundMagnitude_units {m : Nat} (h : m < infinite) :
    roundMagnitude (units m) (2 ^ 1074) = m := by
  obtain ⟨scale, hscale⟩ : ∃ scale, scale = 2 ^ 1074 := ⟨_, rfl⟩
  have hpos : 0 < scale := by
    rw [hscale]
    exact pow_pos Nat.two_pos _
  simp only [roundMagnitude, Nat.pow_eq, ← hscale, Nat.mul_div_cancel _ hpos]
  by_cases hm : m < 2 ^ 52
  · have hlog : m.log2 - 52 = 0 := by
      rcases Nat.eq_zero_or_pos m with rfl | hm0
      · rfl
      · have := (Nat.log2_lt (Nat.ne_of_gt hm0)).mpr hm
        omega
    rw [units_of_lt hm, hlog, Nat.pow_zero, Nat.mul_one, nearestEven_mul_self m hpos]
    omega
  · have hm := Nat.le_of_not_lt hm
    have hpow : 0 < 2 ^ (m / 2 ^ 52 - 1) := Nat.two_pow_pos _
    rw [log2_units hm, Nat.add_sub_cancel_left, units_of_le hm, Nat.mul_comm scale, Nat.mul_assoc,
      nearestEven_mul_self _ (Nat.mul_pos hpow hpos)]
    omega

end Binary64

end GribCatalog
