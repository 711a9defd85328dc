import GribCatalog.Text.Blank
import GribCatalog.Text.Numeral
import Mathlib.Algebra.Ring.Nat

/-! Digits that are written and read. A run of digits is read up to whatever ends it,
and stands for the number that it was written for, padded or not. -/

namespace GribCatalog.Text

section Runs

variable {p : Char → Bool} {cs rest : List Char}

theorem takeWhile_append (hcs : ∀ c ∈ cs, p c = true) (hrest : ∀ c ∈ rest.head?, p c = false) :
    (cs ++ rest).takeWhile p = cs := by
  rw [List.takeWhile_append_of_pos hcs]
  cases rest with
  | nil => simp
  | cons c rest => simp [hrest c rfl]

theorem dropWhile_append (hcs : ∀ c ∈ cs, p c = true) (hrest : ∀ c ∈ rest.head?, p c = false) :
    (cs ++ rest).dropWhile p = rest := by
  rw [List.dropWhile_append_of_pos hcs]
  cases rest with
  | nil => rfl
  | cons c rest => simp [hrest c rfl]

/-- What holds of no character of a word, by a run over the word. -/
theorem eq_false_of_all_not {c : Char} (h : (cs.all fun c => !p c) = true) (hc : c ∈ cs) :
    p c = false := by
  simpa using List.all_eq_true.mp h c hc

end Runs

section Blanks

variable {c : Char} {cs : List Char}

theorem toNat_of_isDigit (h : c.isDigit = true) : 48 ≤ c.toNat ∧ c.toNat ≤ 57 := by
  simpa [Char.isDigit, UInt32.le_iff_toNat_le] using h

theorem isBlank_of_isDigit (h : c.isDigit = true) : isBlank c = false := by
  obtain ⟨hlow, hhigh⟩ := toNat_of_isDigit h
  simp [isBlank]
  omega

theorem trimStart_cons (h : isBlank c = false) : trimStart (c :: cs) = c :: cs := by
  simp [trimStart, h]

end Blanks

variable {n : Nat}

theorem isDigit_of_mem_digits {c : Char} (h : c ∈ digits n) : c.isDigit = true :=
  List.all_eq_true.mp (all_isDigit_digits n) c h

theorem ofDigitChars_digits (n : Nat) : Nat.ofDigitChars 10 (digits n) 0 = n :=
  Nat.ofDigitChars_ten_toDigits

theorem length_digits_pos (n : Nat) : 0 < (digits n).length :=
  Nat.length_toDigits_pos

theorem length_digits_le_iff {k : Nat} (h : 0 < k) : (digits n).length ≤ k ↔ n < 10 ^ k :=
  Nat.length_toDigits_le_iff (by decide) h

theorem lt_pow_length_digits (n : Nat) : n < 10 ^ (digits n).length :=
  (length_digits_le_iff (length_digits_pos n)).mp (Nat.le_refl _)

theorem pow_le_of_lt_length_digits {k : Nat} (hn : 0 < n) (h : k < (digits n).length) :
    10 ^ k ≤ n := by
  rcases Nat.eq_zero_or_pos k with rfl | hk
  · exact hn
  · exact Nat.le_of_not_lt (mt (length_digits_le_iff hk).mpr (Nat.not_le_of_lt h))

theorem ofDigitChars_lt {ds : List Char} (h : ∀ c ∈ ds, c.isDigit = true) (init : Nat) :
    Nat.ofDigitChars 10 ds init < (init + 1) * 10 ^ ds.length := by
  induction ds generalizing init with
  | nil => simp
  | cons d ds ih =>
    rw [List.forall_mem_cons] at h
    obtain ⟨hlow, hhigh⟩ := toNat_of_isDigit h.1
    have hdigit : '0'.toNat = 48 := rfl
    rw [Nat.ofDigitChars_cons, List.length_cons]
    calc Nat.ofDigitChars 10 ds (10 * init + (d.toNat - '0'.toNat))
        < (10 * init + (d.toNat - '0'.toNat) + 1) * 10 ^ ds.length := ih h.2 _
      _ ≤ ((init + 1) * 10) * 10 ^ ds.length := Nat.mul_le_mul_right _ (by omega)
      _ = (init + 1) * 10 ^ (ds.length + 1) := by rw [Nat.pow_succ, Nat.mul_assoc, Nat.mul_comm 10]

theorem exists_digits_eq_cons (h : 0 < n) : ∃ d ds, digits n = d :: ds ∧ d ≠ '0' := by
  induction n using Nat.strongRecOn with
  | ind n ih =>
    by_cases hlt : n < 10
    · refine ⟨n.digitChar, [], Nat.toDigits_of_lt_base hlt, ?_⟩
      rw [ne_eq, Nat.digitChar_eq_zero]
      exact Nat.ne_of_gt h
    · obtain ⟨d, ds, hds, hd⟩ := ih (n / 10) (by omega) (by omega)
      refine ⟨d, ds ++ [(n % 10).digitChar], ?_, hd⟩
      rw [digits, Nat.toDigits_of_base_le (by decide) (Nat.le_of_not_lt hlt)]
      rw [digits] at hds
      rw [hds, List.cons_append]

section Padded

variable {width : Nat}

theorem isDigit_of_mem_padded {c : Char} (h : c ∈ padded width n) : c.isDigit = true := by
  rcases List.mem_append.mp h with h | h
  · rw [(List.mem_replicate.mp h).2]
    rfl
  · exact isDigit_of_mem_digits h

theorem ofDigitChars_padded (width n : Nat) : Nat.ofDigitChars 10 (padded width n) 0 = n := by
  rw [padded, Nat.ofDigitChars_append, Nat.ofDigitChars_replicate_zero, Nat.mul_zero,
    ofDigitChars_digits]

theorem padded_eq_cons (width n : Nat) : ∃ d ds, padded width n = d :: ds ∧ d.isDigit = true := by
  have hne : padded width n ≠ [] := by simp [padded, digits_ne_nil]
  obtain ⟨d, ds, h⟩ := List.exists_cons_of_ne_nil hne
  exact ⟨d, ds, h, isDigit_of_mem_padded (h ▸ List.mem_cons_self)⟩

theorem trimStart_padded_append (width n : Nat) (rest : List Char) :
    trimStart (padded width n ++ rest) = padded width n ++ rest := by
  obtain ⟨d, ds, h, hd⟩ := padded_eq_cons width n
  rw [h]
  exact trimStart_cons (isBlank_of_isDigit hd)

theorem length_padded (hwidth : 0 < width) (h : n < 10 ^ width) :
    (padded width n).length = width := by
  have := (length_digits_le_iff hwidth).mpr h
  rw [padded, List.length_append, List.length_replicate]
  omega

end Padded

section Numbers

theorem head_digits (n : Nat) : ∃ d ds, digits n = d :: ds ∧ d.isDigit = true := by
  obtain ⟨d, ds, h⟩ := List.exists_cons_of_ne_nil (digits_ne_nil n)
  exact ⟨d, ds, h, isDigit_of_mem_digits (h ▸ List.mem_cons_self)⟩

theorem integer?_digits (n : Nat) : integer? (digits n) = some (n : Int) := by
  have hread := natural?_digits n
  obtain ⟨d, ds, hds, hd⟩ := head_digits n
  rw [hds] at hread ⊢
  unfold integer?
  split
  · next h =>
    obtain ⟨rfl, -⟩ := List.cons.inj h
    cases hd
  · next h =>
    obtain ⟨rfl, -⟩ := List.cons.inj h
    cases hd
  · rw [hread]
    rfl

theorem integer?_integerDigits (n : Int) : integer? (integerDigits n) = some n := by
  unfold integerDigits
  split
  · next h =>
    rw [integer?, natural?_digits]
    exact congrArg some (show -(n.natAbs : Int) = n by omega)
  · next h =>
    rw [integer?_digits]
    exact congrArg some (Int.natAbs_of_nonneg (Int.le_of_not_gt h))

theorem int64?_integerDigits (n : Int64) : int64? (integerDigits n.toInt) = some n := by
  have hle := n.le_toInt
  have hlt := n.toInt_lt
  rw [int64?, integer?_integerDigits, Option.filter_some_pos]
  · simp
  · simp only [Nat.pow_eq]
    simp
    omega

theorem unsigned?_digits {limit : Nat} (h : n < limit) : unsigned? limit (digits n) = some n := by
  have hread := natural?_digits n
  obtain ⟨d, ds, hds, hd⟩ := head_digits n
  rw [hds] at hread ⊢
  unfold unsigned?
  split
  · next h =>
    obtain ⟨rfl, -⟩ := List.cons.inj h
    cases hd
  · rw [hread]
    simpa using h

end Numbers

end GribCatalog.Text
