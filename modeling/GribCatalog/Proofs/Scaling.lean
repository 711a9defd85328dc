import GribCatalog.Grib.Product
import GribCatalog.Proofs.Nearest

/-! Scaled values. Powers of ten are multiplied up from squares, exactly as long as 53 bits hold
them, and one more rounding makes the scaled value. -/

namespace GribCatalog

namespace Binary64

/-! ### Powers -/

def squares (x : Binary64) : Nat → Binary64
  | 0 => x
  | i + 1 => (squares x i).mul (squares x i)

/-- The product of the squares that the lowest binary digits of `n` stand for. -/
def products (x : Binary64) (n : Nat) : Nat → Binary64
  | 0 => ofNat 1
  | i + 1 => if n.testBit i then (products x n i).mul (squares x i) else products x n i

section

variable {x : Binary64} {n : Nat}

theorem products_of_lt {i : Nat} (h : n < 2 ^ i) (j : Nat) : products x n (i + j) = products x n i := by
  induction j with
  | zero => rfl
  | succ j ih =>
    have hbit : n.testBit (i + j) = false :=
      Nat.testBit_lt_two_pow (Nat.lt_of_lt_of_le h (Nat.pow_le_pow_right Nat.two_pos (by omega)))
    rw [← Nat.add_assoc, products, hbit, if_neg Bool.false_ne_true, ih]

theorem powerFrom_eq (digits i : Nat) :
    powerFrom digits (squares x i) (products x n i) (n / 2 ^ i) = products x n (i + digits) := by
  induction digits generalizing i with
  | zero => rfl
  | succ digits ih =>
    have hbit : (n / 2 ^ i % 2 = 1) = (n.testBit i = true) := by
      rw [Nat.testBit_eq_decide_div_mod_eq, decide_eq_true_eq]
    have hproduct : (if n / 2 ^ i % 2 = 1 then (products x n i).mul (squares x i)
        else products x n i) = products x n (i + 1) := by
      simp only [hbit, products]
    rw [powerFrom, hproduct, Nat.div_div_eq_div_mul, ← Nat.pow_succ, show i + (digits + 1) =
      i + 1 + digits by omega]
    split
    · next hzero =>
      have hlt : n < 2 ^ (i + 1) := Nat.lt_of_div_eq_zero (Nat.two_pow_pos _) hzero
      rw [products_of_lt hlt]
    · exact ih (i + 1)

theorem power_eq {i : Nat} (hi : i ≤ 32) (h : n < 2 ^ i) : power x n = products x n i := by
  have hall := powerFrom_eq (x := x) (n := n) 32 0
  rw [Nat.pow_zero, Nat.div_one] at hall
  rw [power, ← products_of_lt h (32 - i), show i + (32 - i) = 0 + 32 by omega, ← hall]
  rfl

end

/-! ### Powers of ten -/

/-- `p` is the `n`-th power of ten. A square is rounded, and so is a product of the squares that the
binary digits of `n` stand for, from the lowest digit on. -/
def IsPowerOfTen (n : Nat) (p : Binary64) : Prop :=
  ∃ square product : Nat → Binary64, (square 0).value = 10 ∧ (product 0).value = 1 ∧ product 7 = p ∧
    ∀ i < 7, (square (i + 1)).IsNearest ((square i).value ^ 2) ∧
      if n.testBit i then (product (i + 1)).IsNearest ((product i).value * (square i).value)
      else product (i + 1) = product i

structure IsNearTen (x : Binary64) (n e : Nat) : Prop where
  isPositive : x.isPositive = true
  lower : (1 - 1 / 2 ^ 53) ^ e * 10 ^ n ≤ x.value
  upper : x.value ≤ (1 + 1 / 2 ^ 53) ^ e * 10 ^ n

theorem isPositive_of_value {x : Binary64} (finite : x.isFinite = true) (h : 0 < x.value) :
    x.isPositive = true := by
  have hunit := unit_pos
  have hnegative : x.isNegative = false := by
    by_contra hx
    rw [value_of_isNegative (by simpa using hx), neg_pos] at h
    exact absurd h (not_lt.mpr (by positivity))
  have hzero : x.isZero = false := by
    by_contra hx
    rw [Bool.not_eq_false] at hx
    have hmagnitude : x.magnitude = 0 := of_decide_eq_true hx
    rw [value_of_not_isNegative hnegative, hmagnitude] at h
    simp [units] at h
  simp [Binary64.isPositive, finite, hnegative, hzero]

theorem of_isPositive {x : Binary64} (h : x.isPositive = true) :
    x.isFinite = true ∧ x.unsignedZero = x := by
  simp only [Binary64.isPositive, Bool.and_eq_true, Bool.not_eq_true'] at h
  rw [unsignedZero, h.2, if_neg Bool.false_ne_true]
  exact ⟨h.1.1, rfl⟩

theorem roundings_bounds {e : Nat} (he : (e : ℚ) ≤ 2 ^ 52) :
    1 - e / 2 ^ 53 ≤ (1 - 1 / 2 ^ 53 : ℚ) ^ e ∧ (1 + 1 / 2 ^ 53 : ℚ) ^ e ≤ 1 + e / 2 ^ 52 := by
  obtain ⟨d, hd⟩ : ∃ d : ℚ, d = 1 / 2 ^ 53 := ⟨_, rfl⟩
  have hpos : 0 < d := by rw [hd]; positivity
  have hone : d ≤ 1 := by rw [hd]; norm_num
  have hhalf : e * d ≤ 1 / 2 := by
    rw [hd]
    linarith
  have hlower : 1 - e * d ≤ (1 - d) ^ e := by
    have := one_add_mul_le_pow (show -2 ≤ -d by linarith) e
    rwa [mul_neg, ← sub_eq_add_neg, ← sub_eq_add_neg] at this
  have hprod : (1 + d) ^ e * (1 - d) ^ e ≤ 1 := by
    rw [← mul_pow]
    exact pow_le_one₀ (mul_nonneg (by linarith) (by linarith)) (by nlinarith)
  have hpow : 0 ≤ (1 + d) ^ e := by positivity
  have hcross := (mul_le_mul_of_nonneg_left hlower hpow).trans hprod
  have hupper : (1 + d) ^ e ≤ 1 + 2 * (e * d) := by
    have hnonneg : 0 ≤ e * d := by positivity
    by_contra h
    nlinarith
  rw [← hd, show (e : ℚ) / 2 ^ 53 = e * d by rw [hd, mul_one_div],
    show (e : ℚ) / 2 ^ 52 = 2 * (e * d) by rw [hd]; ring]
  exact ⟨hlower, hupper⟩

theorem unit_le_thousand : 2 ^ 52 * unit ≤ (1000 ^ 100)⁻¹ := by
  calc 2 ^ 52 * unit = 2 ^ 52 * (1 / (2 ^ 6) ^ 179) := by rw [unit, ← pow_mul]
    _ ≤ (1000 ^ 100)⁻¹ := by norm_num

theorem thousand_lt_two : (1000 : ℚ) ^ 100 < 2 ^ 1023 := by
  calc (1000 : ℚ) ^ 100 < (2 ^ 93) ^ 11 := by norm_num
    _ = 2 ^ 1023 := (pow_mul _ _ _).symm

/-- What is near a power of ten is neither too great nor too small for its 53 bits. -/
theorem range_of_ten {n e : Nat} {q : ℚ} (small : n ≤ 256) (few : e ≤ 256)
    (lower : (1 - 1 / 2 ^ 53) ^ e * 10 ^ n ≤ q) (upper : q ≤ (1 + 1 / 2 ^ 53) ^ e * 10 ^ n) :
    2 ^ 52 * unit ≤ q ∧ q < 2 ^ 1023 := by
  have hfew : (e : ℚ) ≤ 256 := by exact_mod_cast few
  obtain ⟨hleast, hmost⟩ := roundings_bounds (e := e) (hfew.trans (by norm_num))
  have hlow : (1 : ℚ) ≤ 10 ^ n := one_le_pow₀ (by norm_num)
  have hhigh : (10 : ℚ) ^ n ≤ 10 ^ 256 := pow_le_pow_right₀ (by norm_num) small
  constructor
  · calc 2 ^ 52 * unit ≤ (1000 ^ 100)⁻¹ := unit_le_thousand
      _ ≤ 1 / 2 * 1 := by norm_num
      _ ≤ q := le_trans (mul_le_mul (by linarith) hlow one_pos.le
          (le_trans (by linarith) hleast)) lower
  · calc q ≤ 2 * 10 ^ 256 :=
          upper.trans (mul_le_mul (by linarith) hhigh (by positivity) two_pos.le)
      _ ≤ 1000 ^ 100 := by norm_num
      _ < 2 ^ 1023 := thousand_lt_two

section

variable {x y : Binary64} {m n e f : Nat}

theorem IsNearTen.mul (hx : x.IsNearTen m e) (hy : y.IsNearTen n f) (small : m + n ≤ 256)
    (few : e + f ≤ 256) :
    (x.mul y).IsNearest (x.value * y.value) ∧ (x.mul y).IsNearTen (m + n) (e + f + 1) := by
  have hypos := value_pos hy.isPositive
  have hpos := mul_pos (value_pos hx.isPositive) hypos
  have hlower : (1 - 1 / 2 ^ 53) ^ (e + f) * 10 ^ (m + n) ≤ x.value * y.value := by
    rw [pow_add, pow_add, mul_mul_mul_comm]
    exact mul_le_mul hx.lower hy.lower (by positivity) (value_pos hx.isPositive).le
  have hupper : x.value * y.value ≤ (1 + 1 / 2 ^ 53) ^ (e + f) * 10 ^ (m + n) := by
    rw [pow_add, pow_add, mul_mul_mul_comm]
    exact mul_le_mul hx.upper hy.upper hypos.le (by positivity)
  obtain ⟨hnormal, hsmall⟩ := range_of_ten small few hlower hupper
  rw [← abs_of_pos hpos] at hnormal hsmall
  have hround := isRounded_mul (of_isPositive hx.isPositive).1 (of_isPositive hx.isPositive).2
    hy.isPositive
  have hnear := hround.isNearest (hround.isFinite hsmall)
  obtain ⟨hbelow, habove⟩ := abs_le.mp (hnear.relative hnormal)
  rw [abs_of_pos hpos] at hbelow habove
  refine ⟨hnear, isPositive_of_value hnear.finite ?_, ?_, ?_⟩
  · linarith
  · rw [pow_succ]
    linarith
  · rw [pow_succ]
    linarith

theorem isNearTen_of_value (finite : x.isFinite = true) (h : x.value = 10 ^ n) :
    x.IsNearTen n 0 :=
  ⟨isPositive_of_value finite (h ▸ by positivity), by rw [h, pow_zero, one_mul],
    by rw [h, pow_zero, one_mul]⟩

theorem value_ten : (ofNat 10).value = 10 :=
  value_ofInt (n := 10) (by decide)

theorem value_one : (ofNat 1).value = 1 :=
  value_ofInt (n := 1) (by decide)

theorem isNearTen_squares {i : Nat} (hi : i ≤ 7) :
    (squares (ofNat 10) i).IsNearTen (2 ^ i) (2 ^ i - 1) := by
  induction i with
  | zero => exact isNearTen_of_value (isNearest_ofInt (n := 10) (by decide)).finite value_ten
  | succ i ih =>
    have hx := ih (by omega)
    have hle : 2 ^ i ≤ 2 ^ 6 := Nat.pow_le_pow_right Nat.two_pos (by omega)
    have hpos := Nat.two_pow_pos i
    have hmul := (hx.mul hx (by omega) (by omega)).2
    rwa [← Nat.mul_two, ← Nat.pow_succ, show 2 ^ i - 1 + (2 ^ i - 1) + 1 = 2 ^ (i + 1) - 1 by omega]
      at hmul

theorem mod_of_testBit {i : Nat} (h : n.testBit i = true) :
    n % 2 ^ (i + 1) = n % 2 ^ i + 2 ^ i := by
  rw [Nat.mod_pow_succ, ← Nat.toNat_testBit, h, Bool.toNat_true, Nat.mul_one]

theorem mod_of_not_testBit {i : Nat} (h : ¬ n.testBit i = true) :
    n % 2 ^ (i + 1) = n % 2 ^ i := by
  rw [Nat.mod_pow_succ, ← Nat.toNat_testBit, Bool.eq_false_iff.mpr h,
    Bool.toNat_false, Nat.mul_zero, Nat.add_zero]

theorem isNearTen_products (n : Nat) {i : Nat} (hi : i ≤ 7) :
    (products (ofNat 10) n i).IsNearTen (n % 2 ^ i) (n % 2 ^ i) := by
  induction i with
  | zero =>
    rw [Nat.pow_zero, Nat.mod_one]
    exact isNearTen_of_value (isNearest_ofInt (n := 1) (by decide)).finite
      (value_one.trans (pow_zero _).symm)
  | succ i ih =>
    have hx := ih (by omega)
    have hle : 2 ^ i ≤ 2 ^ 6 := Nat.pow_le_pow_right Nat.two_pos (by omega)
    have hpos := Nat.two_pow_pos i
    have hlt := Nat.mod_lt n hpos
    rw [products]
    split
    · next hbit =>
      have hsquare := isNearTen_squares (i := i) (by omega)
      have hmul := (hx.mul hsquare (by omega) (by omega)).2
      rw [mod_of_testBit hbit]
      rwa [show n % 2 ^ i + (2 ^ i - 1) + 1 = n % 2 ^ i + 2 ^ i by omega] at hmul
    · next hbit =>
      rw [mod_of_not_testBit hbit]
      exact hx

theorem isPowerOfTen_power (h : n < 128) : IsPowerOfTen n ((ofNat 10).power n) := by
  refine ⟨squares (ofNat 10), products (ofNat 10) n, value_ten, value_one,
    (power_eq (by decide) (show n < 2 ^ 7 from h)).symm, fun i hi => ?_⟩
  have hle : 2 ^ i ≤ 2 ^ 6 := Nat.pow_le_pow_right Nat.two_pos (by omega)
  have hlt := Nat.mod_lt n (Nat.two_pow_pos i)
  have hsquare := isNearTen_squares hi.le
  refine ⟨?_, ?_⟩
  · rw [pow_two]
    exact (hsquare.mul hsquare (by omega) (by omega)).1
  · rw [products]
    split
    · exact ((isNearTen_products n hi.le).mul hsquare (by omega) (by omega)).1
    · rfl

theorem isNearTen_power (h : n < 128) : ((ofNat 10).power n).IsNearTen n n := by
  have hproducts := isNearTen_products n (Nat.le_refl 7)
  rwa [Nat.mod_eq_of_lt (show n < 2 ^ 7 from h), ← power_eq (by decide) h] at hproducts

/-- A product of powers of ten is one as long as 53 bits hold what is odd of it. -/
theorem IsNearest.value_eq_ten (h : x.IsNearest (10 ^ m * 10 ^ n)) (small : m + n ≤ 22) :
    x.value = 10 ^ (m + n) := by
  rw [← pow_add] at h
  have hodd : 5 ^ (m + n) < 2 ^ 53 :=
    Nat.lt_of_le_of_lt (Nat.pow_le_pow_right (by decide) small) (by decide)
  refine h.value_eq_of_lt hodd (k := m + n) ?_
  rw [abs_of_pos (by positivity), show (10 : ℚ) = 5 * 2 by norm_num, mul_pow]
  push_cast
  rfl

theorem IsPowerOfTen.value_eq (h : IsPowerOfTen n x) (small : n ≤ 22) : x.value = 10 ^ n := by
  obtain ⟨square, product, hten, hone, rfl, hstep⟩ := h
  have hsquare : ∀ i ≤ 4, (square i).value = 10 ^ 2 ^ i := by
    intro i hi
    induction i with
    | zero => simpa using hten
    | succ i ih =>
      have hle : 2 ^ i ≤ 2 ^ 3 := Nat.pow_le_pow_right Nat.two_pos (by omega)
      have hnear := (hstep i (by omega)).1
      rw [ih (by omega), pow_two] at hnear
      rw [hnear.value_eq_ten (by omega), ← Nat.mul_two, ← Nat.pow_succ]
  have hproduct : ∀ i ≤ 7, (product i).value = 10 ^ (n % 2 ^ i) := by
    intro i hi
    induction i with
    | zero => simpa [Nat.mod_one] using hone
    | succ i ih =>
      have hnear := (hstep i (by omega)).2
      have hle := Nat.mod_le n (2 ^ (i + 1))
      split at hnear
      · next hbit =>
        have hfour : i ≤ 4 := by
          by_contra hgt
          have hge := Nat.ge_two_pow_of_testBit hbit
          have : 2 ^ 5 ≤ 2 ^ i := Nat.pow_le_pow_right Nat.two_pos (by omega)
          omega
        rw [mod_of_testBit hbit] at hle ⊢
        rw [ih (by omega), hsquare i hfour] at hnear
        exact hnear.value_eq_ten (by omega)
      · next hbit => rw [hnear, ih (by omega), mod_of_not_testBit hbit]
  rw [hproduct 7 (Nat.le_refl 7), Nat.mod_eq_of_lt (by omega)]

/-- There is one `n`-th power of ten. -/
theorem IsPowerOfTen.value_unique (hx : IsPowerOfTen n x) (hy : IsPowerOfTen n y) :
    x.value = y.value := by
  obtain ⟨square, product, hten, hone, rfl, hstep⟩ := hx
  obtain ⟨square', product', hten', hone', rfl, hstep'⟩ := hy
  have hsquare : ∀ i ≤ 7, (square i).value = (square' i).value := by
    intro i hi
    induction i with
    | zero => rw [hten, hten']
    | succ i ih =>
      have hnear := (hstep i (by omega)).1
      rw [ih (by omega)] at hnear
      rw [hnear.unique (hstep' i (by omega)).1]
  have hproduct : ∀ i ≤ 7, (product i).value = (product' i).value := by
    intro i hi
    induction i with
    | zero => rw [hone, hone']
    | succ i ih =>
      have hnear := (hstep i (by omega)).2
      have hnear' := (hstep' i (by omega)).2
      split at hnear
      · next hbit =>
        rw [if_pos hbit] at hnear'
        rw [ih (by omega), hsquare i (by omega)] at hnear
        rw [hnear.unique hnear']
      · next hbit =>
        rw [if_neg hbit] at hnear'
        rw [hnear, hnear', ih (by omega)]
  exact hproduct 7 (Nat.le_refl 7)

/-- The roundings of a power of ten are a small part of it. -/
theorem abs_power_sub_le (h : n < 128) :
    |((ofNat 10).power n).value - 10 ^ n| ≤ 10 ^ n / 2 ^ 45 := by
  have hnear := isNearTen_power h
  have hfew : (n : ℚ) ≤ 128 := by exact_mod_cast h.le
  obtain ⟨hleast, hmost⟩ := roundings_bounds (e := n) (hfew.trans (by norm_num))
  have hten : (0 : ℚ) < 10 ^ n := by positivity
  have hlower := (mul_le_mul_of_nonneg_right hleast hten.le).trans hnear.lower
  have hupper := hnear.upper.trans (mul_le_mul_of_nonneg_right hmost hten.le)
  have hpart : (n : ℚ) / 2 ^ 52 ≤ 1 / 2 ^ 45 := by
    rw [div_le_div_iff₀ (by positivity) (by positivity)]
    linarith
  rw [abs_le]
  constructor <;> nlinarith

end

end Binary64

namespace Surface

def decimal (factor scaled : Int) : ℚ :=
  scaled * 10 ^ (-factor)

/-- `x` is the number that a scale factor and a scaled value stand for. The power of ten is rounded
and then the value is. As long as 53 bits hold the power this is one rounding, and it is never off by
more than one part in `2 ^ 43`. -/
structure IsScaled (factor scaled : Int) (x : Binary64) : Prop where
  rounded : ∃ power, Binary64.IsPowerOfTen factor.natAbs power ∧
    x.IsNearest (if 0 ≤ factor then scaled / power.value else scaled * power.value)
  exact : factor.natAbs ≤ 22 → x.IsNearest (decimal factor scaled)
  close : |x.value - decimal factor scaled| ≤ |decimal factor scaled| / 2 ^ 43

variable {factor scaled : Int}

theorem IsScaled.unique {x y : Binary64} (hx : IsScaled factor scaled x)
    (hy : IsScaled factor scaled y) : x = y := by
  obtain ⟨power, hpower, hnear⟩ := hx.rounded
  obtain ⟨power', hpower', hnear'⟩ := hy.rounded
  rw [hpower.value_unique hpower'] at hnear
  exact hnear.unique hnear'

theorem abs_inv_sub_le {p t : ℚ} (ht : 0 < t) (h : |p - t| ≤ t / 2 ^ 45) :
    |p⁻¹ - t⁻¹| ≤ t⁻¹ / 2 ^ 44 := by
  obtain ⟨hlow, -⟩ := abs_le.mp h
  have hhalf : t / 2 ≤ p := by linarith
  have hp : 0 < p := by linarith
  rw [inv_sub_inv hp.ne' ht.ne', abs_div, abs_sub_comm, abs_of_pos (mul_pos hp ht),
    div_le_iff₀ (mul_pos hp ht)]
  calc |p - t| ≤ t / 2 ^ 45 := h
    _ ≤ p / 2 ^ 44 := by linarith
    _ = t⁻¹ / 2 ^ 44 * (p * t) := by field_simp

/-- A scaled value is a product with a number close to a power of ten, rounded. -/
theorem scaledValue_isRounded (hfactor : factor.natAbs < 128) (hscaled : scaled.natAbs < 2 ^ 53) :
    ∃ r : ℚ, (scaledValue factor scaled).IsRounded (scaled * r) ∧
      (∃ power, Binary64.IsPowerOfTen factor.natAbs power ∧
        (if 0 ≤ factor then scaled / power.value else scaled * power.value : ℚ) = scaled * r) ∧
      (factor.natAbs ≤ 22 → r = 10 ^ (-factor)) ∧
      |r - 10 ^ (-factor)| ≤ (10 : ℚ) ^ (-factor) / 2 ^ 44 := by
  obtain ⟨n, hn⟩ : ∃ n, n = factor.natAbs := ⟨_, rfl⟩
  rw [← hn] at hfactor
  have hpower := Binary64.isPowerOfTen_power hfactor
  have hpositive := (Binary64.isNearTen_power hfactor).isPositive
  have hclose := Binary64.abs_power_sub_le hfactor
  have hfinite := (Binary64.isNearest_ofInt hscaled).finite
  have hzero := Binary64.unsignedZero_ofInt hscaled
  have hvalue := Binary64.value_ofInt hscaled
  rw [← hn]
  by_cases hsign : 0 ≤ factor
  · have hten : (10 : ℚ) ^ (-factor) = (10 ^ n)⁻¹ := by
      rw [zpow_neg, show factor = (n : Int) by omega, zpow_natCast]
    have hround := Binary64.isRounded_div hfinite hzero hpositive
    refine ⟨((Binary64.ofNat 10).power n).value⁻¹, ?_, ⟨_, hpower, ?_⟩, fun hfew => ?_, ?_⟩
    · rw [scaledValue, if_pos hsign, ← hn]
      rwa [hvalue, div_eq_mul_inv] at hround
    · rw [if_pos hsign, div_eq_mul_inv]
    · rw [hpower.value_eq hfew, hten]
    · rw [hten]
      exact abs_inv_sub_le (by positivity) hclose
  · have hten : (10 : ℚ) ^ (-factor) = 10 ^ n := by
      rw [show -factor = (n : Int) by omega, zpow_natCast]
    have hround := Binary64.isRounded_mul hfinite hzero hpositive
    refine ⟨((Binary64.ofNat 10).power n).value, ?_, ⟨_, hpower, ?_⟩, fun hfew => ?_, ?_⟩
    · rw [scaledValue, if_neg hsign, ← hn]
      rwa [hvalue] at hround
    · rw [if_neg hsign]
    · rw [hpower.value_eq hfew, hten]
    · rw [hten]
      have : (0 : ℚ) < 10 ^ n := by positivity
      exact hclose.trans (by linarith)

/-- Rounding a product loses no more than a nearby factor does. -/
theorem abs_value_sub_le {x : Binary64} {r t : ℚ} (h : x.IsNearest (scaled * r))
    (least : (10 ^ 127)⁻¹ ≤ t) (hclose : |r - t| ≤ t / 2 ^ 44) :
    |x.value - scaled * t| ≤ |scaled * t| / 2 ^ 43 := by
  have ht : 0 < t := lt_of_lt_of_le (by positivity) least
  obtain ⟨hbelow, habove⟩ := abs_le.mp hclose
  rcases eq_or_ne scaled 0 with rfl | hne
  · have hvalue := h.value_eq (m := 0) (by simp [Binary64.units])
    simp [hvalue]
  have hone : (1 : ℚ) ≤ |(scaled : ℚ)| := by
    rw [← Int.cast_abs]
    exact_mod_cast Int.one_le_abs hne
  have habs : |(scaled : ℚ) * r| = |(scaled : ℚ)| * r := by
    rw [abs_mul, abs_of_pos (show 0 < r by linarith)]
  have hnormal : 2 ^ 52 * Binary64.unit ≤ |(scaled : ℚ) * r| := by
    calc 2 ^ 52 * Binary64.unit ≤ (1000 ^ 100)⁻¹ := Binary64.unit_le_thousand
      _ ≤ 1 * ((10 ^ 127)⁻¹ / 2) := by norm_num
      _ ≤ |(scaled : ℚ) * r| := by
          rw [habs]
          exact mul_le_mul hone (by linarith) (by positivity) (abs_nonneg _)
  have hrelative := h.relative hnormal
  rw [habs] at hrelative
  calc |x.value - scaled * t| ≤ |x.value - scaled * r| + |(scaled : ℚ) * r - scaled * t| :=
        abs_sub_le _ _ _
    _ ≤ |(scaled : ℚ)| * (2 * t) / 2 ^ 53 + |(scaled : ℚ)| * (t / 2 ^ 44) := by
        refine add_le_add (hrelative.trans ?_) ?_
        · gcongr
          linarith
        · rw [← mul_sub, abs_mul]
          gcongr
    _ ≤ |(scaled : ℚ) * t| / 2 ^ 43 := by
        rw [abs_mul, abs_of_pos ht]
        have := mul_pos (one_pos.trans_le hone) ht
        linarith

theorem isScaled_scaledValue (hfactor : factor.natAbs < 128) (hscaled : scaled.natAbs < 2 ^ 53) :
    IsScaled factor scaled (scaledValue factor scaled) := by
  obtain ⟨r, hround, ⟨power, hpower, hquotient⟩, hexact, hclose⟩ :=
    scaledValue_isRounded hfactor hscaled
  have hlow : (10 ^ 127)⁻¹ ≤ (10 : ℚ) ^ (-factor) := by
    rw [← zpow_natCast, ← zpow_neg]
    exact zpow_le_zpow_right₀ (by norm_num) (by omega)
  have hhigh : (10 : ℚ) ^ (-factor) ≤ 10 ^ 127 := by
    rw [← zpow_natCast]
    exact zpow_le_zpow_right₀ (by norm_num) (by omega)
  have hsmall : |(scaled : ℚ) * r| < 2 ^ 1023 := by
    obtain ⟨hbelow, habove⟩ := abs_le.mp hclose
    have hpos : 0 < (10 : ℚ) ^ (-factor) := by positivity
    have hbits : |(scaled : ℚ)| ≤ 2 ^ 53 := by
      rw [← Int.cast_abs, ← Nat.cast_natAbs]
      exact_mod_cast hscaled.le
    have hr : 0 ≤ r := by linarith
    calc |(scaled : ℚ) * r| ≤ 2 ^ 53 * (2 * 10 ^ 127) := by
          rw [abs_mul, abs_of_nonneg hr]
          exact mul_le_mul hbits (by linarith) hr (by positivity)
      _ ≤ 1000 ^ 100 := by norm_num
      _ < 2 ^ 1023 := Binary64.thousand_lt_two
  have hnear := hround.isNearest (hround.isFinite hsmall)
  refine ⟨⟨power, hpower, hquotient ▸ hnear⟩, fun hfew => ?_, abs_value_sub_le hnear hlow hclose⟩
  rw [decimal, ← hexact hfew]
  exact hnear

end Surface

end GribCatalog
