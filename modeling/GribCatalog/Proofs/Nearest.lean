import GribCatalog.Proofs.NumericOrder
import Mathlib.Algebra.Order.Archimedean.Basic
import Mathlib.Algebra.Order.Field.Basic
import Mathlib.Algebra.Order.Field.Power
import Mathlib.Data.Rat.Cast.Order
import Mathlib.Tactic.FieldSimp
import Mathlib.Tactic.Linarith
import Mathlib.Tactic.Positivity
import Mathlib.Tactic.Ring

/-! Rounding takes the nearest number. Magnitudes that follow each other are as far apart as their
exponent says, and a quotient is brought to a multiple of that distance, so that no magnitude is
nearer to it than the one that it is rounded to. -/

namespace GribCatalog

theorem nearestEven_spec (num : Nat) {den : Nat} (hden : 0 < den) :
    |(nearestEven num den : ℚ) - num / den| ≤ 1 / 2 ∧
      (|(nearestEven num den : ℚ) - num / den| = 1 / 2 → nearestEven num den % 2 = 0) := by
  have hpos : (0 : ℚ) < den := Nat.cast_pos.mpr hden
  obtain ⟨rest, hrest⟩ : ∃ rest : ℚ, rest = (num % den : Nat) / den := ⟨_, rfl⟩
  have hsum : (num : ℚ) / den = (num / den : Nat) + rest := by
    rw [hrest, div_eq_iff hpos.ne', add_mul, div_mul_cancel₀ _ hpos.ne']
    exact_mod_cast (Nat.div_add_mod' num den).symm
  have hnonneg : 0 ≤ rest := hrest ▸ by positivity
  have hlt : rest < 1 := by
    rw [hrest, div_lt_one hpos]
    exact_mod_cast Nat.mod_lt num hden
  have hbelow : 2 * (num % den) < den ↔ rest < 1 / 2 := by
    rw [hrest, div_lt_div_iff₀ hpos two_pos, one_mul, mul_comm]
    exact_mod_cast Iff.rfl
  have habove : den < 2 * (num % den) ↔ 1 / 2 < rest := by
    rw [hrest, div_lt_div_iff₀ two_pos hpos, one_mul, mul_comm _ (2 : ℚ)]
    exact_mod_cast Iff.rfl
  rw [nearestEven, hsum]
  simp only [hbelow, habove]
  split
  · next hless =>
    rw [sub_add_cancel_left, abs_neg, abs_of_nonneg hnonneg]
    exact ⟨hless.le, fun h => absurd h hless.ne⟩
  split
  · next hmore =>
    rw [Nat.cast_succ, add_sub_add_left_eq_sub, abs_of_pos (sub_pos.mpr hlt)]
    exact ⟨by linarith, fun h => absurd h (by linarith)⟩
  · have hhalf : rest = 1 / 2 := by linarith
    rcases Nat.mod_two_eq_zero_or_one (num / den) with heven | hodd
    · rw [heven, Nat.add_zero, sub_add_cancel_left, abs_neg, abs_of_nonneg hnonneg]
      exact ⟨hhalf.le, fun _ => heven⟩
    · rw [hodd, Nat.cast_succ, add_sub_add_left_eq_sub, abs_of_pos (sub_pos.mpr hlt)]
      exact ⟨by linarith, fun _ => by omega⟩

namespace Binary64

/-- A magnitude of 53 bits, or of fewer where its exponent is the least. -/
theorem units_normal {k q : Nat} (hq : q ≤ 2 ^ 53) (hk : k = 0 ∨ 2 ^ 52 ≤ q) :
    units (k * 2 ^ 52 + q) = q * 2 ^ k := by
  by_cases hsmall : q < 2 ^ 52
  · obtain rfl : k = 0 := by omega
    rw [Nat.zero_mul, Nat.zero_add, units_of_lt hsmall, Nat.pow_zero, Nat.mul_one]
  rw [units_of_le (by omega)]
  rcases Nat.lt_or_eq_of_le hq with hlt | rfl
  · rw [show (k * 2 ^ 52 + q) / 2 ^ 52 - 1 = k by omega,
      show 2 ^ 52 + (k * 2 ^ 52 + q) % 2 ^ 52 = q by omega]
  · rw [show (k * 2 ^ 52 + 2 ^ 53) / 2 ^ 52 - 1 = k + 1 by omega,
      show 2 ^ 52 + (k * 2 ^ 52 + 2 ^ 53) % 2 ^ 52 = 2 ^ 52 by omega, Nat.pow_succ _ k]
    omega

/-- No magnitude is nearer to `t` units than `m`, and one that is as near leaves `m` the even one. -/
def NearestMagnitude (m : Nat) (t : ℚ) : Prop :=
  ∀ n, |(units m : ℚ) - t| ≤ |(units n : ℚ) - t| ∧
    (|(units m : ℚ) - t| = |(units n : ℚ) - t| → n = m ∨ m % 2 = 0)

/-- It is enough to be within half of the distance to either neighbour. -/
theorem nearestMagnitude_of_half (gap : ℚ) {m : Nat} {t : ℚ} (hhalf : |(units m : ℚ) - t| ≤ gap / 2)
    (heven : |(units m : ℚ) - t| = gap / 2 → m % 2 = 0)
    (above : (units m : ℚ) + gap ≤ units (m + 1))
    (below : ∀ n < m, (units n : ℚ) + gap ≤ units m ∨ (units m : ℚ) ≤ t) :
    NearestMagnitude m t := by
  intro n
  obtain ⟨hlow, hhigh⟩ := abs_le.mp hhalf
  have far (h : gap / 2 ≤ |(units n : ℚ) - t|) : |(units m : ℚ) - t| ≤ |(units n : ℚ) - t| ∧
      (|(units m : ℚ) - t| = |(units n : ℚ) - t| → n = m ∨ m % 2 = 0) :=
    ⟨hhalf.trans h, fun heq => .inr (heven (le_antisymm hhalf (heq ▸ h)))⟩
  rcases Nat.lt_trichotomy n m with hn | rfl | hn
  · rcases below n hn with hgap | hunder
    · exact far (by rw [abs_sub_comm]; exact le_trans (by linarith) (le_abs_self _))
    · -- everything below is further away than a number that is below itself
      have hlt : (units n : ℚ) < units m := by exact_mod_cast units_strictMono hn
      rw [abs_sub_comm, abs_of_nonneg (sub_nonneg.mpr hunder), abs_sub_comm,
        abs_of_nonneg (sub_nonneg.mpr (hlt.le.trans hunder))]
      exact ⟨by linarith, fun h => absurd h (by linarith)⟩
  · exact ⟨le_rfl, fun _ => .inl rfl⟩
  · have hle : (units (m + 1) : ℚ) ≤ units n := by exact_mod_cast units_strictMono.monotone hn
    exact far (le_trans (by linarith) (le_abs_self _))

theorem NearestMagnitude.not_lt {m n : Nat} {t : ℚ} (hm : NearestMagnitude m t)
    (hn : NearestMagnitude n t) : ¬ m < n := by
  intro hlt
  have heq := le_antisymm (hm n).1 (hn m).1
  have heven := ((hm n).2 heq).resolve_left hlt.ne'
  have heven' := ((hn m).2 heq.symm).resolve_left hlt.ne
  -- there is one between two even ones, and it is nearer
  have hlow : (units m : ℚ) < units (m + 1) := by exact_mod_cast units_lt_succ m
  have hhigh : (units (m + 1) : ℚ) < units n := by
    exact_mod_cast units_strictMono (show m + 1 < n by omega)
  have hmiddle : (units n : ℚ) - t = -(units m - t) :=
    (abs_eq_abs.mp heq.symm).resolve_left fun h => by linarith
  have hnearer := (hm (m + 1)).1
  rw [abs_sub_comm, abs_of_nonneg (by linarith), le_abs'] at hnearer
  rcases hnearer with h | h <;> linarith

theorem NearestMagnitude.unique {m n : Nat} {t : ℚ} (hm : NearestMagnitude m t)
    (hn : NearestMagnitude n t) : m = n :=
  Nat.le_antisymm (Nat.le_of_not_lt (hn.not_lt hm)) (Nat.le_of_not_lt (hm.not_lt hn))

/-- A whole number of up to 53 bits that is nearest to `r` makes the magnitude nearest to `r * 2 ^ k`,
unless more bits of `r` could have been kept. -/
theorem nearestMagnitude_mul {k q : Nat} {r : ℚ} (bits : q ≤ 2 ^ 53) (least : k = 0 ∨ 2 ^ 52 ≤ q)
    (kept : k = 0 ∨ 2 ^ 52 ≤ r) (half : |(q : ℚ) - r| ≤ 1 / 2)
    (even : |(q : ℚ) - r| = 1 / 2 → q % 2 = 0) :
    NearestMagnitude (k * 2 ^ 52 + q) (r * 2 ^ k) := by
  have hpow : (0 : ℚ) < 2 ^ k := by positivity
  have hunits : (units (k * 2 ^ 52 + q) : ℚ) = q * 2 ^ k := by
    rw [units_normal bits least]
    push_cast
    rfl
  have hdistance : |(units (k * 2 ^ 52 + q) : ℚ) - r * 2 ^ k| = |(q : ℚ) - r| * 2 ^ k := by
    rw [hunits, ← sub_mul, abs_mul, abs_of_pos hpow]
  refine nearestMagnitude_of_half (2 ^ k) ?_ ?_ ?_ fun n hn => ?_
  · rw [hdistance]
    linarith [mul_le_mul_of_nonneg_right half hpow.le]
  · intro h
    rw [hdistance] at h
    have := even (mul_right_cancel₀ hpow.ne' (by linarith))
    omega
  · rw [units_succ]
    push_cast
    gcongr
    · exact one_le_two
    · omega
  · by_cases hleast : k ≠ 0 ∧ q = 2 ^ 52
    · -- the magnitudes below are closer to each other, but `r` is not below
      right
      rw [hunits, hleast.2]
      push_cast
      exact mul_le_mul_of_nonneg_right (kept.resolve_left hleast.1) hpow.le
    · left
      have hprev : (k * 2 ^ 52 + q - 1) / 2 ^ 52 - 1 = k := by omega
      have hsucc := units_succ (k * 2 ^ 52 + q - 1)
      rw [hprev, Nat.sub_add_cancel (by omega)] at hsucc
      have hle := units_strictMono.monotone (show n ≤ k * 2 ^ 52 + q - 1 by omega)
      rw [hsucc]
      push_cast
      gcongr
      exact_mod_cast hle

theorem le_div_of_log2 (scaled den : Nat) :
    Nat.log2 (scaled / den) - 52 = 0 ∨
      2 ^ 52 ≤ scaled / (den * 2 ^ (Nat.log2 (scaled / den) - 52)) := by
  refine or_iff_not_imp_left.mpr fun hne => ?_
  rw [← Nat.div_div_eq_div_mul, Nat.le_div_iff_mul_le (Nat.two_pow_pos _), ← pow_add,
    Nat.add_sub_cancel' (by omega)]
  refine Nat.log2_self_le fun hzero => ?_
  rw [hzero, Nat.log2_zero] at hne
  omega

theorem nearestMagnitude_round {scaled den : Nat} (hden : 0 < den) :
    NearestMagnitude ((Nat.log2 (scaled / den) - 52) * 2 ^ 52 +
      nearestEven scaled (den * 2 ^ (Nat.log2 (scaled / den) - 52))) (scaled / den : ℚ) := by
  have hbits := div_lt_of_log2 scaled den
  have hkept := le_div_of_log2 scaled den
  generalize Nat.log2 (scaled / den) - 52 = k at *
  have hgap : 0 < den * 2 ^ k := Nat.mul_pos hden (Nat.two_pow_pos k)
  obtain ⟨hfloor, hceil⟩ := nearestEven_bounds scaled (den * 2 ^ k)
  obtain ⟨hhalf, heven⟩ := nearestEven_spec scaled hgap
  have hscale : (scaled : ℚ) / den = scaled / (den * 2 ^ k : Nat) * 2 ^ k := by
    push_cast
    field_simp
  rw [hscale]
  refine nearestMagnitude_mul (by omega) (by omega) ?_ hhalf heven
  refine hkept.imp_right fun hle => ?_
  rw [le_div_iff₀ (by exact_mod_cast hgap)]
  exact_mod_cast (Nat.le_div_iff_mul_le hgap).mp hle

/-! ### Numbers -/

/-- The least positive number. -/
def unit : ℚ := 1 / 2 ^ 1074

theorem unit_pos : 0 < unit := by
  unfold unit
  positivity

/-- What a finite word stands for. -/
def value (x : Binary64) : ℚ :=
  x.signedUnits * unit

/-- The number nearest to `q`, and the even one of two that are equally near. -/
structure IsNearest (x : Binary64) (q : ℚ) : Prop where
  finite : x.isFinite = true
  sign : x.isNegative = true ↔ q < 0
  nearest : NearestMagnitude x.magnitude (|q| / unit)

section

variable {x y : Binary64} {q : ℚ}

theorem value_of_isNegative (h : x.isNegative = true) : x.value = -(units x.magnitude * unit) := by
  rw [value, signedUnits, if_pos h]
  push_cast
  ring

theorem value_of_not_isNegative (h : x.isNegative = false) : x.value = units x.magnitude * unit := by
  rw [value, signedUnits, h]
  push_cast
  rfl

theorem abs_value (x : Binary64) : |x.value| = units x.magnitude * unit := by
  have hnonneg : (0 : ℚ) ≤ units x.magnitude * unit := by
    have := unit_pos
    positivity
  cases hx : x.isNegative with
  | true => rw [value_of_isNegative hx, abs_neg, abs_of_nonneg hnonneg]
  | false => rw [value_of_not_isNegative hx, abs_of_nonneg hnonneg]

/-- A word that has the sign of a number is as far from it as their magnitudes are apart. -/
theorem abs_value_sub (sign : x.isNegative = true ↔ q < 0) :
    |x.value - q| = |(units x.magnitude : ℚ) - |q| / unit| * unit := by
  have hunit : (units x.magnitude : ℚ) * unit - |q| = (units x.magnitude - |q| / unit) * unit := by
    rw [sub_mul, div_mul_cancel₀ _ unit_pos.ne']
  have hmagnitudes : |x.value - q| = |(units x.magnitude : ℚ) * unit - (|q|)| := by
    cases hx : x.isNegative with
    | true =>
      rw [value_of_isNegative hx, abs_of_neg (sign.mp hx), ← abs_neg]
      ring_nf
    | false =>
      have hq : ¬ q < 0 := fun h => by simp [sign.mpr h] at hx
      rw [value_of_not_isNegative hx, abs_of_nonneg (not_lt.mp hq)]
  rw [hmagnitudes, hunit, abs_mul, abs_of_pos unit_pos]

/-- What is a number of the format is not changed. -/
theorem IsNearest.value_eq (h : x.IsNearest q) {m : Nat} (hm : |q| = units m * unit) :
    x.value = q := by
  have hzero : |q| / unit = units m := by rw [hm, mul_div_cancel_right₀ _ unit_pos.ne']
  have hle := (h.nearest m).1
  rw [hzero, sub_self, abs_zero] at hle
  rw [← sub_eq_zero, ← abs_eq_zero, abs_value_sub h.sign, hzero]
  simp [le_antisymm hle (abs_nonneg _)]

theorem isFinite_ofRatio {negative : Bool} {num den : Nat} :
    (ofRatio negative num den).isFinite = true ↔ roundMagnitude num den < infinite := by
  have hle : roundMagnitude num den ≤ infinite := Nat.min_le_left _ _
  rw [ofRatio, isFinite, magnitude_ofMagnitude (Nat.lt_of_le_of_lt hle (by decide)),
    decide_eq_true_iff]

/-- What `q` is rounded to, which may be infinite. -/
def IsRounded (x : Binary64) (q : ℚ) : Prop :=
  ∃ negative num den, x = ofRatio negative num den ∧ 0 < den ∧ (negative = true ↔ q < 0) ∧
    |q| = num / den

theorem IsRounded.isNearest (h : x.IsRounded q) (finite : x.isFinite = true) : x.IsNearest q := by
  obtain ⟨negative, num, den, rfl, hden, hsign, hq⟩ := h
  have hlt := isFinite_ofRatio.mp finite
  have hword : roundMagnitude num den < 2 ^ 63 := Nat.lt_trans hlt (by decide)
  refine ⟨finite, ?_, ?_⟩
  · rw [ofRatio, isNegative_ofMagnitude hword, hsign]
  · obtain ⟨p, hp⟩ : ∃ p, p = 1074 := ⟨_, rfl⟩
    have hscaled : |q| / unit = ((num * Nat.pow 2 p : Nat) : ℚ) / den := by
      rw [hq, unit, ← hp, Nat.pow_eq]
      push_cast
      field_simp
    have hround : roundMagnitude num den = _ :=
      Nat.min_eq_right (Nat.le_of_not_le fun h => by
        rw [roundMagnitude, Nat.min_eq_left h] at hlt
        exact Nat.lt_irrefl _ hlt)
    rw [ofRatio, magnitude_ofMagnitude hword, hscaled, hround, ← hp]
    exact nearestMagnitude_round hden

theorem IsRounded.isFinite (h : x.IsRounded q) (small : |q| < 2 ^ 1023) : x.isFinite = true := by
  obtain ⟨negative, num, den, rfl, hden, -, hq⟩ := h
  obtain ⟨p, hp⟩ : ∃ p, p = 1023 := ⟨_, rfl⟩
  rw [hq, ← hp, div_lt_iff₀ (Nat.cast_pos.mpr hden), mul_comm] at small
  refine isFinite_ofRatio.mpr (roundMagnitude_lt_infinite ?_)
  rw [← hp]
  exact_mod_cast small

theorem IsNearest.unique (hx : x.IsNearest q) (hy : y.IsNearest q) : x = y := by
  have hsign : x.isNegative = y.isNegative := Bool.eq_iff_iff.mpr (hx.sign.trans hy.sign.symm)
  rw [← ofMagnitude_magnitude x, ← ofMagnitude_magnitude y, hsign, hx.nearest.unique hy.nearest]

theorem exists_units_le {t : ℚ} (h : 0 ≤ t) : ∃ m, (units m : ℚ) ≤ t ∧ t < units (m + 1) := by
  have hreached : ∃ m, t < units (m + 1) := by
    obtain ⟨n, hn⟩ := exists_nat_gt t
    have hle : n ≤ units (n + 1) := (units_strictMono.le_apply (x := n)).trans (units_lt_succ n).le
    exact ⟨n, hn.trans_le (by exact_mod_cast hle)⟩
  classical
  refine ⟨Nat.find hreached, ?_, Nat.find_spec hreached⟩
  rcases hzero : Nat.find hreached with _ | m
  · simpa [units] using h
  · exact not_lt.mp (Nat.find_min hreached (m := m) (by omega))

/-- A number that is not below the least with 53 bits loses no more than the part of it that is
below its first 53 bits. -/
theorem IsNearest.relative (h : x.IsNearest q) (normal : 2 ^ 52 * unit ≤ |q|) :
    |x.value - q| ≤ |q| / 2 ^ 53 := by
  have hunit := unit_pos
  obtain ⟨t, ht⟩ : ∃ t, t = |q| / unit := ⟨_, rfl⟩
  have hq : |q| = t * unit := by rw [ht, div_mul_cancel₀ _ hunit.ne']
  have hnormal : 2 ^ 52 ≤ t := by rwa [ht, le_div_iff₀ hunit]
  obtain ⟨m, hlow, hhigh⟩ := exists_units_le (le_trans (by positivity) hnormal)
  have hle : 2 ^ 52 ≤ m := by
    have hleast : units (2 ^ 52) = 2 ^ 52 := rfl
    have hlt : units (2 ^ 52) < units (m + 1) := by
      rw [hleast]
      exact_mod_cast hnormal.trans_lt hhigh
    exact Nat.le_of_lt_succ (units_strictMono.lt_iff_lt.mp hlt)
  -- the distance to the next magnitude is what a bit below the 53 stands for
  have hgap : ((2 ^ (m / 2 ^ 52 - 1) : Nat) : ℚ) * 2 ^ 52 ≤ t := by
    refine le_trans ?_ hlow
    rw [units_of_le hle, Nat.add_mul, Nat.mul_comm (2 ^ 52)]
    exact_mod_cast Nat.le_add_right _ _
  have hsucc : (units (m + 1) : ℚ) = units m + (2 ^ (m / 2 ^ 52 - 1) : Nat) := by
    exact_mod_cast units_succ m
  have hbelow := (h.nearest m).1
  have habove := (h.nearest (m + 1)).1
  rw [← ht] at hbelow habove
  rw [abs_sub_comm, abs_sub_comm _ t, abs_of_nonneg (sub_nonneg.mpr hlow)] at hbelow
  rw [abs_of_pos (sub_pos.mpr hhigh), hsucc, abs_sub_comm] at habove
  rw [abs_value_sub h.sign, ← ht, hq, abs_sub_comm, mul_div_right_comm]
  refine mul_le_mul_of_nonneg_right ?_ hunit.le
  rw [le_div_iff₀ (by positivity)]
  linarith

/-! ### Arithmetic -/

def isPositive (x : Binary64) : Bool :=
  x.isFinite && !x.isNegative && !x.isZero

theorem isNaN_of_isFinite (h : x.isFinite = true) : x.isNaN = false := by
  rw [isFinite, decide_eq_true_iff] at h
  rw [isNaN, decide_eq_false_iff_not]
  omega

theorem isInfinite_of_isFinite (h : x.isFinite = true) : x.isInfinite = false := by
  rw [isFinite, decide_eq_true_iff] at h
  rw [isInfinite, decide_eq_false_iff_not]
  omega

theorem isNegative_iff (h : x.unsignedZero = x) : x.isNegative = true ↔ x.value < 0 := by
  have hunit := unit_pos
  cases hx : x.isNegative with
  | true =>
    have hmagnitude : 0 < x.magnitude := by
      refine Nat.pos_of_ne_zero fun hzero => ?_
      rw [← h, unsignedZero, if_pos (show x.isZero = true from decide_eq_true hzero)] at hx
      cases hx
    have hpos : (0 : ℚ) < units x.magnitude := by exact_mod_cast units_strictMono hmagnitude
    rw [value_of_isNegative hx]
    exact iff_of_true rfl (neg_neg_of_pos (by positivity))
  | false =>
    rw [value_of_not_isNegative hx]
    exact iff_of_false Bool.false_ne_true (not_lt.mpr (by positivity))

theorem value_pos (h : y.isPositive = true) : 0 < y.value := by
  simp only [isPositive, isZero, Bool.and_eq_true, Bool.not_eq_true', decide_eq_false_iff_not] at h
  have hunit := unit_pos
  have hpos : (0 : ℚ) < units y.magnitude := by
    exact_mod_cast units_strictMono (Nat.pos_of_ne_zero h.2)
  rw [value_of_not_isNegative h.1.2]
  positivity

theorem isRounded_mul (hx : x.isFinite = true) (hzero : x.unsignedZero = x)
    (hy : y.isPositive = true) : (x.mul y).IsRounded (x.value * y.value) := by
  have hpos := value_pos hy
  simp only [isPositive, Bool.and_eq_true, Bool.not_eq_true'] at hy
  obtain ⟨⟨hfinite, hnegative⟩, -⟩ := hy
  obtain ⟨p, hp⟩ : ∃ p, p = 1074 := ⟨_, rfl⟩
  refine ⟨x.isNegative != y.isNegative, units x.magnitude * units y.magnitude,
    Nat.pow 2 p * Nat.pow 2 p, ?_, Nat.mul_pos (Nat.two_pow_pos p) (Nat.two_pow_pos p), ?_, ?_⟩
  · rw [mul, ← hp]
    simp [isNaN_of_isFinite hx, isNaN_of_isFinite hfinite, isInfinite_of_isFinite hx,
      isInfinite_of_isFinite hfinite]
  · rw [hnegative, Bool.bne_false, isNegative_iff hzero, ← neg_pos, ← neg_pos, ← neg_mul,
      mul_pos_iff_of_pos_right hpos]
  · rw [abs_mul, abs_value, abs_value, unit, ← hp, Nat.pow_eq]
    push_cast
    field_simp

theorem isRounded_div (hx : x.isFinite = true) (hzero : x.unsignedZero = x)
    (hy : y.isPositive = true) : (x.div y).IsRounded (x.value / y.value) := by
  have hpos := value_pos hy
  simp only [isPositive, Bool.and_eq_true, Bool.not_eq_true'] at hy
  obtain ⟨⟨hfinite, hnegative⟩, hnonzero⟩ := hy
  have hunits : 0 < units y.magnitude :=
    units_strictMono (Nat.pos_of_ne_zero (of_decide_eq_false hnonzero))
  refine ⟨x.isNegative != y.isNegative, units x.magnitude, units y.magnitude, ?_, hunits, ?_, ?_⟩
  · simp [div, isNaN_of_isFinite hx, isNaN_of_isFinite hfinite, isInfinite_of_isFinite hx,
      isInfinite_of_isFinite hfinite, hnonzero]
  · rw [hnegative, Bool.bne_false, isNegative_iff hzero, div_lt_iff₀ hpos, zero_mul]
  · rw [abs_div, abs_value, abs_value, mul_div_mul_right _ _ unit_pos.ne']

/-- A whole number of up to 53 bits times a power of two is a number of the format. -/
theorem exists_units {n : Nat} (h : n < 2 ^ 53) (k : Nat) : ∃ m, units m = n * 2 ^ (1074 + k) := by
  rcases Nat.eq_zero_or_pos n with rfl | hpos
  · exact ⟨0, (Nat.zero_mul _).symm⟩
  obtain ⟨bits, hbits⟩ : ∃ bits, bits = Nat.log2 n := ⟨_, rfl⟩
  have hle : bits ≤ 52 := by
    have := (Nat.log2_lt hpos.ne').mpr h
    omega
  have hlow : 2 ^ bits ≤ n := hbits ▸ Nat.log2_self_le hpos.ne'
  have hhigh : n < 2 ^ (bits + 1) := hbits ▸ Nat.lt_log2_self
  refine ⟨(1022 + k + bits) * 2 ^ 52 + n * 2 ^ (52 - bits), ?_⟩
  rw [units_normal, Nat.mul_assoc, ← pow_add, show 52 - bits + (1022 + k + bits) = 1074 + k by omega]
  · calc n * 2 ^ (52 - bits) ≤ 2 ^ (bits + 1) * 2 ^ (52 - bits) :=
          Nat.mul_le_mul_right _ hhigh.le
      _ = 2 ^ 53 := by rw [← pow_add, show bits + 1 + (52 - bits) = 53 by omega]
  · right
    calc 2 ^ 52 = 2 ^ bits * 2 ^ (52 - bits) := by
          rw [← pow_add, show bits + (52 - bits) = 52 by omega]
      _ ≤ n * 2 ^ (52 - bits) := Nat.mul_le_mul_right _ hlow

theorem IsNearest.value_eq_of_lt (h : x.IsNearest q) {n k : Nat} (hn : n < 2 ^ 53)
    (hq : |q| = n * 2 ^ k) : x.value = q := by
  obtain ⟨p, hp⟩ : ∃ p, p = 1074 := ⟨_, rfl⟩
  obtain ⟨m, hm⟩ := exists_units hn k
  refine h.value_eq (m := m) ?_
  rw [hq, hm, unit, ← hp, pow_add]
  push_cast
  field_simp

theorem isNearest_ofInt {n : Int} (h : n.natAbs < 2 ^ 53) : (ofInt n).IsNearest n := by
  have habs : |(n : ℚ)| = (n.natAbs : ℚ) := by
    rw [Nat.cast_natAbs, Int.cast_abs]
  have hrounded : (ofInt n).IsRounded n :=
    ⟨n < 0, n.natAbs, 1, rfl, Nat.one_pos, by simp, by rw [habs, Nat.cast_one, div_one]⟩
  refine hrounded.isNearest (hrounded.isFinite ?_)
  rw [habs]
  calc (n.natAbs : ℚ) < 2 ^ 53 := by exact_mod_cast h
    _ ≤ 2 ^ 1023 := pow_le_pow_right₀ one_le_two (by decide)

theorem value_ofInt {n : Int} (h : n.natAbs < 2 ^ 53) : (ofInt n).value = n := by
  refine (isNearest_ofInt h).value_eq_of_lt (k := 0) h ?_
  rw [pow_zero, mul_one, Nat.cast_natAbs, Int.cast_abs]

theorem unsignedZero_ofInt {n : Int} (h : n.natAbs < 2 ^ 53) : (ofInt n).unsignedZero = ofInt n := by
  rw [unsignedZero]
  split
  · next hzero =>
    have hmagnitude : (ofInt n).magnitude = 0 := of_decide_eq_true hzero
    have hn : n = 0 := by
      have habs := abs_value (ofInt n)
      rw [value_ofInt h, hmagnitude, show units 0 = 0 from rfl, Nat.cast_zero, zero_mul,
        abs_eq_zero] at habs
      exact_mod_cast habs
    rw [hn]
    decide +kernel
  · rfl

end

end Binary64

end GribCatalog
