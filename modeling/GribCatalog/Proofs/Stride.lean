import GribCatalog.Proofs.Outcome
import GribCatalog.Stride
import Mathlib.Data.List.Nodup
import Mathlib.Data.List.Perm.Subperm
import Mathlib.Data.Nat.ModEq

/-! Steps around a circle. Multiplication by a number that has no divisor in common with `n` keeps
the residues modulo `n` apart, so that as many steps as there are places visit each of them once. -/

namespace GribCatalog.Stride

variable {n stride : Nat}

/-! ### Euclid's recursion -/

inductive Course : Nat → Nat → Nat → Prop
  | last (a : Nat) : Course a 0 a
  | next {a b g : Nat} (more : b ≠ 0) (rest : Course b (a % b) g) : Course a b g

theorem gcd_zero (a : Nat) : gcd a 0 = a := by
  rw [gcd, dif_pos rfl]

theorem gcd_of_ne_zero (a : Nat) {b : Nat} (h : b ≠ 0) : gcd a b = gcd b (a % b) := by
  rw [gcd, dif_neg h]

/-- The recursion ends for all numbers, since a remainder is less than what it is the remainder of
division by. -/
theorem course_gcd (a b : Nat) : Course a b (gcd a b) := by
  induction b using Nat.strongRecOn generalizing a with
  | ind b ih =>
    by_cases h : b = 0
    · rw [h, gcd_zero]
      exact .last a
    · rw [gcd_of_ne_zero a h]
      exact .next h (ih (a % b) (Nat.mod_lt a (Nat.pos_of_ne_zero h)) b)

theorem Course.eq_gcd {a b g : Nat} (course : Course a b g) : g = a.gcd b := by
  induction course with
  | last a => exact (Nat.gcd_zero_right a).symm
  | @next a b g _ _ ih => rw [ih, Nat.gcd_comm b, ← Nat.gcd_rec, Nat.gcd_comm]

theorem gcd_eq (a b : Nat) : gcd a b = a.gcd b :=
  (course_gcd a b).eq_gcd

theorem course_iff {a b g : Nat} : Course a b g ↔ g = gcd a b := by
  constructor
  · intro course
    rw [gcd_eq, course.eq_gcd]
  · rintro rfl
    exact course_gcd a b

/-! ### Every place once -/

theorem order?_eq_none_iff : order? n stride = none ↔ n = 0 ∨ n.gcd stride ≠ 1 := by
  rw [order?, gcd_eq]
  split
  · next h => simp [h.1.ne', h.2]
  · next h =>
    rw [not_and_or, Nat.not_lt, Nat.le_zero] at h
    exact iff_of_true rfl h

theorem order?_of_coprime (pos : 0 < n) (coprime : n.Coprime stride)
    (fits : (n - 1) * stride < wordLimit) :
    order? n stride = some ((List.range n).map fun i => i * stride % n) := by
  rw [order?, gcd_eq, if_pos ⟨pos, coprime⟩, Option.some_inj]
  refine List.map_congr_left fun i hi => ?_
  have hle : i ≤ n - 1 := Nat.le_sub_one_of_lt (List.mem_range.mp hi)
  have hword : i * stride < wordLimit := (Nat.mul_le_mul_right stride hle).trans_lt fits
  rw [Nat.mod_eq_of_lt hword]

/-- Checked steps are the steps of an order whose last one is a word. -/
theorem checkedOrder?_eq_ite (n stride : Nat) :
    checkedOrder? n stride =
      if (n - 1) * stride < wordLimit then order? n stride else none := by
  by_cases h : 0 < n ∧ gcd n stride = 1
  · rw [checkedOrder?, if_pos h]
    split
    · next fits =>
      rw [order?_of_coprime h.1 ((gcd_eq n stride).symm.trans h.2) fits]
      refine Option.mapM_eq_some_of_forall₂ ?_
      rw [List.forall₂_map_right_iff, List.forall₂_same]
      intro i hi
      have hle : i ≤ n - 1 := Nat.le_sub_one_of_lt (List.mem_range.mp hi)
      exact if_pos ((Nat.mul_le_mul_right stride hle).trans_lt fits)
    · next hlast =>
      have hmem : n - 1 ∈ List.range n := List.mem_range.mpr (Nat.sub_lt h.1 Nat.one_pos)
      exact Option.mapM_eq_none_iff.mpr ⟨n - 1, hmem, if_neg hlast⟩
  · rw [checkedOrder?, if_neg h, order?, if_neg h, ite_self]

theorem eq_of_step_eq (coprime : n.Coprime stride) {i j : Nat} (hi : i < n) (hj : j < n)
    (h : i * stride % n = j * stride % n) : i = j := by
  have hmod : i ≡ j [MOD n] := Nat.ModEq.cancel_right_of_coprime coprime h
  exact hmod.eq_of_lt_of_lt hi hj

theorem steps_perm (pos : 0 < n) (coprime : n.Coprime stride) :
    ((List.range n).map fun i => i * stride % n).Perm (List.range n) := by
  have hnodup : ((List.range n).map fun i => i * stride % n).Nodup :=
    List.Nodup.map_on (fun i hi j hj h =>
      eq_of_step_eq coprime (List.mem_range.mp hi) (List.mem_range.mp hj) h) List.nodup_range
  have hsub : ((List.range n).map fun i => i * stride % n) ⊆ List.range n := by
    intro k hk
    obtain ⟨i, -, rfl⟩ := List.mem_map.mp hk
    exact List.mem_range.mpr (Nat.mod_lt _ pos)
  exact (List.subperm_of_subset hnodup hsub).perm_of_length_le (by simp)

/-- A stride that has no divisor in common with `n` passes every number below `n` once, as long as
its last step is a word. An order is refused exactly for no places or for a common divisor, and
the recursion that decides this ends for all numbers, with their greatest common divisor. -/
theorem order?_passes_all_once :
    (∀ n stride : Nat, 0 < n → n.Coprime stride → (n - 1) * stride < wordLimit →
      ∃ order, order? n stride = some order ∧ order.Perm (List.range n)) ∧
    (∀ n stride : Nat, order? n stride = none ↔ n = 0 ∨ n.gcd stride ≠ 1) ∧
    (∀ a b g : Nat, Course a b g ↔ g = gcd a b) ∧
    ∀ a b d : Nat, d ∣ gcd a b ↔ d ∣ a ∧ d ∣ b := by
  refine ⟨fun n stride pos coprime fits => ?_, fun n stride => order?_eq_none_iff,
    fun a b g => course_iff, fun a b d => ?_⟩
  · exact ⟨_, order?_of_coprime pos coprime fits, steps_perm pos coprime⟩
  · rw [gcd_eq]
    exact Nat.dvd_gcd_iff

theorem order?_passes_all_once_seven :
    0 < 10 ∧ Nat.Coprime 10 7 ∧ (10 - 1) * 7 < wordLimit ∧
      order? 10 7 = some [0, 7, 4, 1, 8, 5, 2, 9, 6, 3] ∧
      [0, 7, 4, 1, 8, 5, 2, 9, 6, 3].Perm (List.range 10) := by
  have hfits : (10 - 1) * 7 < wordLimit := by decide
  have horder : order? 10 7 = some [0, 7, 4, 1, 8, 5, 2, 9, 6, 3] :=
    order?_of_coprime (by decide) (by decide) hfits
  obtain ⟨order, hsome, hperm⟩ :=
    order?_passes_all_once.1 10 7 (by decide) (by decide) hfits
  rw [horder, Option.some_inj] at hsome
  exact ⟨by decide, by decide, hfits, horder, hsome ▸ hperm⟩

/-- Steps that are no words may visit a place twice. -/
example : order? 3 (wordLimit - 2) = some [0, 2, 0] := by
  rw [order?, gcd_eq]
  decide +kernel

end GribCatalog.Stride
