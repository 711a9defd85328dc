import GribCatalog.Calendar.Rfc3339
import GribCatalog.Proofs.Digits

/-! Dates and instants that are written and read. Every day has a valid date with its
number, and the text of a civil instant is read as the instant, by the strict form in
years of four digits and by the lenient form in all. -/

namespace GribCatalog

namespace Date

theorem sum_monthLengths (y : Int) : (monthLengths y).sum = if isLeap y then 366 else 365 := by
  rw [monthLengths]
  split <;> rfl

theorem yearStart_succ (y : Int) : yearStart (y + 1) = yearStart y + (monthLengths y).sum := by
  rw [sum_monthLengths]
  simp only [yearStart, isLeap, Bool.and_eq_true, Bool.or_eq_true, decide_eq_true_eq, ne_eq]
  split <;> omega

theorem yearStart_le {y z : Int} (h : y ≤ z) : yearStart y ≤ yearStart z := by
  simp only [yearStart]
  omega

/-- The mean year's guess is off by a year at most. -/
theorem yearStart_guess (n : Int) :
    yearStart (400 * (n + 719528) / 146097 - 1) ≤ n ∧
      n < yearStart (400 * (n + 719528) / 146097 + 2) := by
  simp only [yearStart]
  constructor <;> omega

theorem yearOf_spec (n : Int) : yearStart (yearOf n) ≤ n ∧ n < yearStart (yearOf n + 1) := by
  obtain ⟨hlow, hhigh⟩ := yearStart_guess n
  unfold yearOf
  generalize 400 * (n + 719528) / 146097 = guess at hlow hhigh
  simp only
  split
  · next h => exact ⟨hlow, by rwa [Int.sub_add_cancel]⟩
  split
  · next h => exact ⟨h, by rwa [Int.add_assoc]⟩
  · next hle hlt => exact ⟨Int.not_lt.mp hle, Int.not_le.mp hlt⟩

theorem yearOf_eq_iff {n y : Int} : yearOf n = y ↔ yearStart y ≤ n ∧ n < yearStart (y + 1) := by
  obtain ⟨hlow, hhigh⟩ := yearOf_spec n
  refine ⟨fun h => h ▸ ⟨hlow, hhigh⟩, fun ⟨hle, hlt⟩ => ?_⟩
  have hbelow : ¬ yearOf n + 1 ≤ y := fun h => by
    have := yearStart_le h
    omega
  have habove : ¬ y + 1 ≤ yearOf n := fun h => by
    have := yearStart_le h
    omega
  omega

theorem le_yearOf_iff {n y : Int} : y ≤ yearOf n ↔ yearStart y ≤ n := by
  obtain ⟨hlow, hhigh⟩ := yearOf_spec n
  constructor
  · intro h
    exact Int.le_trans (yearStart_le h) hlow
  · intro h
    by_contra hbefore
    have := yearStart_le (show yearOf n + 1 ≤ y by omega)
    omega

/-- A day of the year is in the month before whose end it comes first. -/
theorem monthDay_spec (month : Nat) {days : Nat} {lens : List Nat} (h : days < lens.sum) :
    ∃ i d, monthDay month days lens = (month + i, d + 1) ∧ i < lens.length ∧
      d < lens.getD i 0 ∧ (lens.take i).sum + d = days := by
  induction lens generalizing month days with
  | nil => exact absurd h (Nat.not_lt_zero _)
  | cons len lens ih =>
    rw [monthDay]
    split
    · next hlt => exact ⟨0, days, rfl, Nat.succ_pos _, hlt, Nat.zero_add _⟩
    · next hle =>
      rw [List.sum_cons] at h
      have hlt : days - len < lens.sum := by omega
      obtain ⟨i, d, heq, hi, hd, hsum⟩ := ih (month + 1) hlt
      refine ⟨i + 1, d, ?_, Nat.succ_lt_succ hi, hd, ?_⟩
      · rw [heq, Nat.add_assoc, Nat.add_comm 1]
      · rw [List.take_succ_cons, List.sum_cons]
        omega

theorem monthDay_eq (month : Nat) {d i : Nat} {lens : List Nat} (h : d < lens.getD i 0) :
    monthDay month ((lens.take i).sum + d) lens = (month + i, d + 1) := by
  induction i generalizing month lens with
  | zero =>
    cases lens with
    | nil => exact absurd h (Nat.not_lt_zero _)
    | cons len lens =>
      rw [List.take_zero, List.sum_nil, Nat.zero_add, monthDay, Nat.add_zero]
      exact if_pos h
  | succ i ih =>
    cases lens with
    | nil => exact absurd h (Nat.not_lt_zero _)
    | cons len lens =>
      rw [List.take_succ_cons, List.sum_cons, monthDay, if_neg (by omega),
        show len + (lens.take i).sum + d - len = (lens.take i).sum + d by omega, ih _ h,
        Nat.add_right_comm, Nat.add_assoc]

theorem getD_monthLengths_le (y : Int) (i : Nat) : (monthLengths y).getD i 0 ≤ 31 := by
  by_cases hi : i < 12
  · have : ∀ j < 12, (monthLengths y).getD j 0 ≤ 31 := by
      rw [monthLengths]
      split <;> decide
    exact this i hi
  · rw [List.getD_eq_getElem?_getD, List.getElem?_eq_none (Nat.le_of_not_lt hi)]
    exact Nat.zero_le _

/-- The date of a day: its year, and the day of a month that the year has. -/
theorem ofNumber_spec (n : Int) :
    ∃ i d : Nat, ofNumber n = ⟨yearOf n, 1 + i, d + 1⟩ ∧ i < 12 ∧
      d < (monthLengths (yearOf n)).getD i 0 ∧
      yearStart (yearOf n) + ((monthLengths (yearOf n)).take i).sum + d = n := by
  obtain ⟨hlow, hhigh⟩ := yearOf_spec n
  have hdays : (n - yearStart (yearOf n)).toNat < (monthLengths (yearOf n)).sum := by
    rw [yearStart_succ] at hhigh
    omega
  obtain ⟨i, d, heq, hi, hd, hsum⟩ := monthDay_spec 1 hdays
  refine ⟨i, d, ?_, hi, hd, by omega⟩
  simp only [ofNumber, heq]

theorem number_ofNumber (n : Int) : (ofNumber n).number = n := by
  obtain ⟨i, d, heq, -, -, hsum⟩ := ofNumber_spec n
  rw [heq, number, Nat.add_sub_cancel_left, ← List.sum_eq_foldl_nat]
  simp only
  omega

theorem isValid_ofNumber {n : Int} (hfirst : yearStart firstYear ≤ n)
    (hlast : n < yearStart (lastYear + 1)) : (ofNumber n).isValid = true := by
  obtain ⟨i, d, heq, hi, hd, -⟩ := ofNumber_spec n
  obtain ⟨hlow, hhigh⟩ := yearOf_spec n
  have hge : firstYear ≤ yearOf n := Int.not_lt.mp fun h => by
    have := yearStart_le (show yearOf n + 1 ≤ firstYear by omega)
    omega
  have hle : yearOf n ≤ lastYear := Int.not_lt.mp fun h => by
    have := yearStart_le (show lastYear + 1 ≤ yearOf n by omega)
    omega
  rw [heq, isValid]
  simp only [Bool.and_eq_true, decide_eq_true_eq, Nat.add_sub_cancel_left]
  exact ⟨⟨⟨⟨⟨hge, hle⟩, Nat.le_add_right 1 i⟩, by omega⟩, Nat.le_add_left 1 d⟩, hd⟩

theorem sum_take_add_getD_le (lens : List Nat) (i : Nat) :
    (lens.take i).sum + lens.getD i 0 ≤ lens.sum := by
  induction lens generalizing i with
  | nil => simp
  | cons len lens ih =>
    cases i with
    | zero => simp
    | succ i =>
      have := ih i
      simp only [List.take_succ_cons, List.sum_cons, List.getD_cons_succ]
      omega

theorem yearOf_number {d : Date} (h : d.isValid = true) : yearOf d.number = d.year := by
  simp only [isValid, Bool.and_eq_true, decide_eq_true_eq] at h
  have hsum := sum_take_add_getD_le (monthLengths d.year) (d.month - 1)
  rw [yearOf_eq_iff, yearStart_succ, number, ← List.sum_eq_foldl_nat]
  omega

theorem ofNumber_number {d : Date} (h : d.isValid = true) : ofNumber d.number = d := by
  have hyear := yearOf_number h
  simp only [isValid, Bool.and_eq_true, decide_eq_true_eq] at h
  have hdays : (d.number - yearStart d.year).toNat =
      ((monthLengths d.year).take (d.month - 1)).sum + (d.day - 1) := by
    rw [number, ← List.sum_eq_foldl_nat]
    omega
  rw [ofNumber]
  simp only [hyear, hdays]
  rw [monthDay_eq 1 (by omega), show 1 + (d.month - 1) = d.month by omega,
    show d.day - 1 + 1 = d.day by omega]

end Date

namespace Instant

/-- An instant of the years that dates are kept for. Only the last second of a minute may have a
leap second after it. -/
structure IsCivil (t : Instant) : Prop where
  representable : t.isRepresentable = true
  nanos : t.nanos < 1000000000 ∨ t.nanos < 2000000000 ∧ t.seconds % 60 = 59

section Readers

variable {least most width n : Nat} {ds rest : List Char}

theorem number?_append (least most : Nat) (rest : List Char) (hds : ∀ c ∈ ds, c.isDigit = true)
    (hleast : least ≤ ds.length) (hmost : ds.length ≤ most)
    (hrest : ds.length = most ∨ ∀ c ∈ rest.head?, c.isDigit = false) :
    number? least most (ds ++ rest) = some (Nat.ofDigitChars 10 ds 0, rest) := by
  have hhead : ∀ c ∈ (rest.take (most - ds.length)).head?, c.isDigit = false := by
    rw [List.head?_take]
    rcases hrest with rfl | hrest
    · simp
    · split
      · simp
      · exact hrest
  have hread : ((ds ++ rest).take most).takeWhile Char.isDigit = ds := by
    rw [List.take_append, List.take_of_length_le hmost, Text.takeWhile_append hds hhead]
  rw [number?, hread, if_neg (Nat.not_lt_of_le hleast), List.drop_left]

theorem number?_padded (hwidth : 0 < width) (hn : n < 10 ^ width) (hleast : least ≤ width) :
    number? least width (Text.padded width n ++ rest) = some (n, rest) := by
  have hlength := Text.length_padded hwidth hn
  have hread := number?_append least width rest
    (fun c => Text.isDigit_of_mem_padded) (Nat.le_trans hleast (Nat.le_of_eq hlength.symm))
    (Nat.le_of_eq hlength) (.inl hlength)
  rwa [Text.ofDigitChars_padded] at hread

/-- A fraction of fewer than ten digits after a point. -/
theorem fraction?_padded (hwidth : 0 < width) (hle : width ≤ 9) (hn : n < 10 ^ width)
    (hrest : ∀ c ∈ rest.head?, c.isDigit = false) :
    fraction? ('.' :: Text.padded width n ++ rest) = some (n * 10 ^ (9 - width), rest) := by
  have hlength := Text.length_padded hwidth hn
  have hread := number?_append 1 9 rest
    (fun c => Text.isDigit_of_mem_padded) (Nat.le_trans hwidth (Nat.le_of_eq hlength.symm))
    (Nat.le_trans (Nat.le_of_eq hlength) hle) (.inr hrest)
  rw [Text.ofDigitChars_padded] at hread
  have hdrop : ([] ++ rest).dropWhile Char.isDigit = rest := Text.dropWhile_append nofun hrest
  rw [List.nil_append] at hdrop
  rw [List.cons_append, fraction?, hread]
  simp only [Option.bind_eq_bind, Option.bind_some, hdrop, List.length_append,
    Nat.add_sub_cancel, hlength, Nat.pow_eq]

theorem fraction?_fractionText (rest : List Char) {nanos : Nat} (h : nanos < 1000000000)
    (hdot : rest.head? ≠ some '.') (hrest : ∀ c ∈ rest.head?, c.isDigit = false) :
    fraction? (fractionText nanos ++ rest) = some (nanos, rest) := by
  unfold fractionText
  split
  · next hzero =>
    rw [hzero, List.nil_append]
    unfold fraction?
    split
    · next cs => exact absurd rfl hdot
    · rfl
  split
  · rw [fraction?_padded (by decide) (by decide) (by omega) hrest]
    exact congrArg (fun n => some (n, rest)) (show nanos / 1000000 * 1000000 = nanos by omega)
  split
  · rw [fraction?_padded (by decide) (by decide) (by omega) hrest]
    exact congrArg (fun n => some (n, rest)) (show nanos / 1000 * 1000 = nanos by omega)
  · rw [fraction?_padded (by decide) (by decide) h hrest]
    exact congrArg (fun n => some (n, rest)) (Nat.mul_one nanos)

theorem separator?_cons (c : Char) (cs : List Char) : separator? c (c :: cs) = some cs :=
  if_pos rfl

theorem dateEnd?_cons (cs : List Char) : dateEnd? ('T' :: cs) = some cs := rfl

theorem field?_padded (hn : n < 100) : field? (Text.padded 2 n ++ rest) = some (n, rest) := by
  rw [field?, Text.trimStart_padded_append]
  exact number?_padded (by decide) hn (by decide)

/-- A signed year takes all digits that there are. -/
theorem number?_year {cs : List Char} (hrest : ∀ c ∈ rest.head?, c.isDigit = false)
    (hcs : cs = Text.padded width n ++ rest) : number? 1 cs.length cs = some (n, rest) := by
  obtain ⟨d, ds, hdigits, -⟩ := Text.padded_eq_cons width n
  have hread := number?_append 1 cs.length rest
    (fun c => Text.isDigit_of_mem_padded) (by rw [hdigits]; exact Nat.succ_pos _)
    (by rw [hcs, List.length_append]; exact Nat.le_add_right _ _) (.inr hrest)
  rwa [← hcs, Text.ofDigitChars_padded] at hread

theorem year?_yearText (year : Int) (hrest : ∀ c ∈ rest.head?, c.isDigit = false) :
    year? (yearText year ++ rest) = some (year, rest) := by
  unfold yearText
  split
  · next h =>
    simp only [Bool.and_eq_true, decide_eq_true_eq] at h
    obtain ⟨d, ds, hdigits, hd⟩ := Text.padded_eq_cons 4 year.toNat
    have hread : number? 1 4 (Text.padded 4 year.toNat ++ rest) = some (year.toNat, rest) :=
      number?_padded (by decide) (by omega) (by decide)
    unfold year?
    rw [Text.trimStart_padded_append]
    rw [hdigits] at hread ⊢
    split
    · next heq =>
      obtain ⟨rfl, -⟩ := List.cons.inj heq
      cases hd
    · next heq =>
      obtain ⟨rfl, -⟩ := List.cons.inj heq
      cases hd
    · rw [hread]
      exact congrArg (fun y : Int => some (y, rest)) (show (year.toNat : Int) = year by omega)
  · next h =>
    simp only [Bool.and_eq_true, decide_eq_true_eq, not_and, Int.not_le] at h
    rw [List.cons_append, year?]
    by_cases hnegative : year < 0
    · rw [if_pos hnegative, Text.trimStart_cons (by decide)]
      simp only
      rw [number?_year hrest rfl]
      exact congrArg (fun y : Int => some (y, rest)) (show -(year.natAbs : Int) = year by omega)
    · rw [if_neg hnegative, Text.trimStart_cons (by decide)]
      simp only
      rw [number?_year hrest rfl]
      exact congrArg (fun y : Int => some (y, rest)) (show (year.natAbs : Int) = year by omega)

end Readers

def fieldsText (zone : List Char) (year : Int) (month day hour minute second nanos : Nat) :
    List Char :=
  yearText year ++ '-' :: (Text.padded 2 month ++ '-' :: (Text.padded 2 day ++
    'T' :: (Text.padded 2 hour ++ ':' :: (Text.padded 2 minute ++ ':' :: (Text.padded 2 second ++
      (fractionText nanos ++ zone))))))

section Fields

variable {year : Int} {month day hour minute second nanos : Nat}

theorem ofRfc3339?_fieldsText (hyear : 0 ≤ year ∧ year ≤ 9999) (hmonth : month < 100)
    (hday : day < 100) (hhour : hour < 100) (hminute : minute < 100) (hsecond : second < 100)
    (hnanos : nanos < 1000000000) :
    ofRfc3339? (fieldsText ['+', '0', '0', ':', '0', '0'] year month day hour minute second nanos) =
      ofLocal? ⟨year, month, day⟩ hour minute second nanos 0 := by
  have htwo {n : Nat} (h : n < 100) (rest : List Char) :
      number? 2 2 (Text.padded 2 n ++ rest) = some (n, rest) :=
    number?_padded (by decide) h (Nat.le_refl 2)
  have hfour (rest : List Char) :
      number? 4 4 (yearText year ++ rest) = some (year.toNat, rest) := by
    rw [yearText, if_pos (by simp; omega)]
    exact number?_padded (by decide) (by omega) (Nat.le_refl 4)
  have hfraction := fraction?_fractionText ['+', '0', '0', ':', '0', '0'] hnanos
    (by decide) fun _ h => Option.some.inj h ▸ rfl
  have hzone : zone? (separator? ':') ['+', '0', '0', ':', '0', '0'] = some (0, []) := by
    decide +kernel
  have htoNat : (year.toNat : Int) = year := by omega
  simp only [fieldsText, ofRfc3339?, Option.bind_eq_bind, Option.bind_some, hfour, separator?_cons,
    htwo, hmonth, hday, hhour, hminute, hsecond, dateEnd?_cons, hfraction, hzone, htoNat, if_true]

/-- The strict form has no year of more digits than four, or with a sign. -/
theorem ofRfc3339?_eq_none (zone : List Char) (hyear : ¬ (0 ≤ year ∧ year ≤ 9999)) :
    ofRfc3339? (fieldsText zone year month day hour minute second nanos) = none := by
  have hnone (rest : List Char) : number? 4 4 (yearText year ++ rest) = none := by
    rw [yearText, if_neg (by simpa using hyear)]
    split <;> rfl
  simp only [fieldsText, ofRfc3339?, hnone, Option.bind_eq_bind, Option.bind_none]

theorem ofLenient?_fieldsText (hmonth : month < 100) (hday : day < 100) (hhour : hour < 100)
    (hminute : minute < 100) (hsecond : second < 100) (hnanos : nanos < 1000000000) :
    ofLenient? (fieldsText ['Z'] year month day hour minute second nanos) =
      ofLocal? ⟨year, month, day⟩ hour minute second nanos 0 := by
  have hyear (rest : List Char) :
      year? (yearText year ++ '-' :: rest) = some (year, '-' :: rest) :=
    year?_yearText year (by simp)
  have hdash (cs : List Char) : Text.trimStart ('-' :: cs) = '-' :: cs :=
    Text.trimStart_cons (by decide)
  have hcolon (cs : List Char) : Text.trimStart (':' :: cs) = ':' :: cs :=
    Text.trimStart_cons (by decide)
  have hfraction := fraction?_fractionText ['Z'] hnanos (by decide)
    fun _ h => Option.some.inj h ▸ rfl
  have hzone : lenientZone? (Text.trimStart ['Z']) = some (0, []) := by decide +kernel
  simp only [fieldsText, ofLenient?, Option.bind_eq_bind, Option.bind_some, hyear, hdash, hcolon,
    separator?_cons, field?_padded, hmonth, hday, hhour, hminute, hsecond, dateEnd?_cons,
    hfraction, hzone]
  rfl

end Fields

section Civil

variable {t : Instant}

theorem IsCivil.isValid_date (h : t.IsCivil) :
    (Date.ofNumber (t.seconds / 86400)).isValid = true := by
  have hrepresentable := h.representable
  rw [isRepresentable, Bool.and_eq_true, decide_eq_true_iff, decide_eq_true_iff, firstSecond,
    lastSecond] at hrepresentable
  exact Date.isValid_ofNumber (by omega) (by omega)

theorem addSeconds?_zero (h : t.isRepresentable = true) : t.addSeconds? (-60 * 0) = some t := by
  rw [addSeconds?, Int.mul_zero, Int.add_zero]
  exact if_pos h

/-- What is written of a civil instant makes the instant. -/
theorem IsCivil.ofLocal?_eq (h : t.IsCivil) {leap : Nat}
    (hleap : leap = if 1000000000 ≤ t.nanos then 1 else 0) :
    ofLocal? (Date.ofNumber (t.seconds / 86400)) ((t.seconds % 86400).toNat / 3600)
      ((t.seconds % 86400).toNat / 60 % 60) ((t.seconds % 86400).toNat % 60 + leap)
      (t.nanos - leap * 1000000000) 0 = some t := by
  obtain ⟨second, hsecond⟩ : ∃ second, second = (t.seconds % 86400).toNat := ⟨_, rfl⟩
  have hnumber := Date.number_ofNumber (t.seconds / 86400)
  have hvalid := h.isValid_date
  generalize Date.ofNumber (t.seconds / 86400) = d at hnumber hvalid
  rw [← hsecond, ofLocal?, if_pos (by simp [hvalid]; split at hleap <;> omega)]
  have hdate (s : Nat) (hs : s = second % 60) :
      ofDate d (second / 3600) (second / 60 % 60) s t.nanos = t := by
    have hseconds : 86400 * (t.seconds / 86400) +
        ((3600 * (second / 3600) + 60 * (second / 60 % 60) + s : Nat) : Int) = t.seconds := by
      omega
    rw [ofDate, hnumber, hseconds]
  by_cases hlong : 1000000000 ≤ t.nanos
  · rw [if_pos hlong] at hleap
    have hlast := h.nanos.resolve_left (by omega)
    simp only
    rw [if_pos (by omega), hleap, show t.nanos - 1 * 1000000000 + 1000000000 = t.nanos by omega,
      hdate 59 (by omega)]
    exact addSeconds?_zero h.representable
  · rw [if_neg hlong] at hleap
    simp only
    rw [if_neg (by omega), hleap, show t.nanos - 0 * 1000000000 = t.nanos by omega,
      hdate _ (by omega)]
    exact addSeconds?_zero h.representable

theorem IsCivil.of_ofLocal? {d : Date} {hour minute second nanos : Nat} {offset : Int}
    (hnanos : nanos < 1000000000) (h : ofLocal? d hour minute second nanos offset = some t) :
    t.IsCivil := by
  unfold ofLocal? at h
  split at h
  · next hfields =>
    simp only [addSeconds?, Option.ite_none_right_eq_some, Option.some.injEq] at h
    obtain ⟨hrepresentable, rfl⟩ := h
    refine ⟨hrepresentable, ?_⟩
    split
    · exact .inr ⟨by simp [ofDate]; omega, by simp [ofDate]; omega⟩
    · exact .inl hnanos
  · cases h

theorem number?_spec {least most n : Nat} {cs rest : List Char}
    (h : number? least most cs = some (n, rest)) :
    ∃ ds, cs = ds ++ rest ∧ ds.length ≤ most ∧ n < 10 ^ ds.length := by
  unfold number? at h
  extract_lets ds at h
  split at h
  · cases h
  · obtain ⟨rfl, rfl⟩ := Prod.mk.inj (Option.some.inj h)
    have hprefix : ds <+: cs := (List.takeWhile_prefix _).trans (List.take_prefix most cs)
    refine ⟨ds, (List.prefix_iff_eq_append.mp hprefix).symm, ?_, ?_⟩
    · exact Nat.le_trans (List.takeWhile_prefix _).length_le (List.length_take_le most cs)
    · have := Text.ofDigitChars_lt (List.all_eq_true.mp (List.all_takeWhile : ds.all _ = true)) 0
      rwa [Nat.zero_add, Nat.one_mul] at this

theorem fraction?_lt {cs rest : List Char} {n : Nat} (h : fraction? cs = some (n, rest)) :
    n < 1000000000 := by
  unfold fraction? at h
  split at h
  · obtain ⟨⟨n, rest⟩, hnumber, h⟩ := Option.bind_eq_some_iff.mp h
    obtain ⟨ds, rfl, hle, hlt⟩ := number?_spec hnumber
    obtain ⟨rfl, -⟩ := Prod.mk.inj (Option.some.inj h)
    rw [List.length_append, Nat.add_sub_cancel]
    calc n * 10 ^ (9 - ds.length) < 10 ^ ds.length * 10 ^ (9 - ds.length) :=
          (Nat.mul_lt_mul_right (Nat.pow_pos (by decide))).mpr hlt
      _ = 10 ^ (ds.length + (9 - ds.length)) := (Nat.pow_add 10 _ _).symm
      _ = 10 ^ 9 := congrArg (10 ^ ·) (Nat.add_sub_cancel' hle)
  · obtain ⟨rfl, -⟩ := Prod.mk.inj (Option.some.inj h)
    decide

/-- Whatever is read is a civil instant. -/
theorem IsCivil.of_ofLenient? {cs : List Char} (h : ofLenient? cs = some t) : t.IsCivil := by
  simp only [ofLenient?, Option.bind_eq_bind, Option.bind_eq_some_iff,
    Option.ite_none_right_eq_some] at h
  obtain ⟨_, -, _, -, _, -, _, -, _, -, _, -, _, -, _, -, _, -, _, -, _, -, _, hfraction, _, -,
    -, h⟩ := h
  exact .of_ofLocal? (fraction?_lt hfraction) h

def year (t : Instant) : Int :=
  (Date.ofNumber (t.seconds / 86400)).year

theorem le_year_iff {y : Int} : y ≤ t.year ↔ 86400 * Date.yearStart y ≤ t.seconds := by
  obtain ⟨i, d, hdate, -⟩ := Date.ofNumber_spec (t.seconds / 86400)
  rw [year, hdate, Date.le_yearOf_iff]
  omega

theorem isRepresentable_iff :
    t.isRepresentable = true ↔ Date.firstYear ≤ t.year ∧ t.year ≤ Date.lastYear := by
  have hafter := le_year_iff (t := t) (y := Date.lastYear + 1)
  rw [le_year_iff, isRepresentable, Bool.and_eq_true, decide_eq_true_iff, decide_eq_true_iff,
    firstSecond, lastSecond]
  omega

/-- The instant of a valid date and time of day is in the date's year. -/
theorem IsCivil.of_ofCivil? {t : Instant} {d : Date} {hour minute second : Nat}
    (h : ofCivil? d hour minute second = some t) : t.IsCivil ∧ t.year = d.year := by
  unfold ofCivil? at h
  split at h
  · next hfields =>
    cases h
    simp only [Bool.and_eq_true, decide_eq_true_eq] at hfields
    obtain ⟨⟨⟨hvalid, hhour⟩, hminute⟩, hsecond⟩ := hfields
    have hday : (ofDate d hour minute second 0).seconds / 86400 = d.number := by
      simp only [ofDate]
      omega
    have hyear : (ofDate d hour minute second 0).year = d.year := by
      obtain ⟨i, k, hdate, -⟩ := Date.ofNumber_spec d.number
      rw [year, hday, hdate]
      exact Date.yearOf_number hvalid
    have hbounds := Date.yearOf_eq_iff.mp (Date.yearOf_number hvalid)
    simp only [Date.isValid, Bool.and_eq_true, decide_eq_true_eq] at hvalid
    have hfirst := Date.yearStart_le (show Date.firstYear ≤ d.year by omega)
    have hlast := Date.yearStart_le (show d.year + 1 ≤ Date.lastYear + 1 by omega)
    refine ⟨⟨?_, .inl (show 0 < 1000000000 by decide)⟩, hyear⟩
    rw [isRepresentable, Bool.and_eq_true, decide_eq_true_iff, decide_eq_true_iff, firstSecond,
      lastSecond]
    simp only [ofDate]
    omega
  · cases h

/-- A civil instant is written by fields that make it. -/
theorem IsCivil.textWith_eq (h : t.IsCivil) (zone : List Char) :
    ∃ month day hour minute second nanos,
      month < 100 ∧ day < 100 ∧ hour < 100 ∧ minute < 100 ∧ second < 100 ∧ nanos < 1000000000 ∧
      t.textWith zone = fieldsText zone t.year month day hour minute second nanos ∧
      ofLocal? ⟨t.year, month, day⟩ hour minute second nanos 0 = some t := by
  obtain ⟨i, d, hdate, hi, hd, -⟩ := Date.ofNumber_spec (t.seconds / 86400)
  have hday : d < 31 := Nat.lt_of_lt_of_le hd (Date.getD_monthLengths_le _ i)
  have hnanos := h.nanos
  have hread := h.ofLocal?_eq rfl
  have hyear : Date.yearOf (t.seconds / 86400) = t.year := by rw [year, hdate]
  rw [hdate, hyear] at hread
  refine ⟨1 + i, d + 1, _, _, _, _, by omega, by omega, ?_, ?_, ?_, ?_, ?_, hread⟩
  · omega
  · omega
  · split <;> omega
  · split <;> omega
  · rw [year, hdate]
    simp [textWith, fieldsText, hdate]

theorem IsCivil.ofLenient?_zuluText (h : t.IsCivil) : ofLenient? t.zuluText = some t := by
  obtain ⟨_, _, _, _, _, _, hmonth, hday, hhour, hminute, hsecond, hnanos, htext, hread⟩ :=
    h.textWith_eq ['Z']
  rw [zuluText, htext, ofLenient?_fieldsText hmonth hday hhour hminute hsecond hnanos, hread]

/-- A civil instant is read back from its text in the strict form if its year has four digits, and
is not read otherwise. -/
theorem IsCivil.ofRfc3339?_text (h : t.IsCivil) :
    ofRfc3339? t.text = if 0 ≤ t.year ∧ t.year ≤ 9999 then some t else none := by
  obtain ⟨_, _, _, _, _, _, hmonth, hday, hhour, hminute, hsecond, hnanos, htext, hread⟩ :=
    h.textWith_eq ['+', '0', '0', ':', '0', '0']
  rw [text, htext]
  split
  · next hyear =>
    rw [ofRfc3339?_fieldsText hyear hmonth hday hhour hminute hsecond hnanos, hread]
  · next hyear => exact ofRfc3339?_eq_none _ hyear

end Civil

end Instant

end GribCatalog
