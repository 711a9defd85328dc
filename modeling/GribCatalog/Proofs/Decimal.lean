import GribCatalog.Binary64.Reading
import GribCatalog.Binary64.Shortest
import GribCatalog.Proofs.Digits
import GribCatalog.Proofs.Rounding
import Mathlib.Algebra.Order.Ring.Nat
import Mathlib.Data.List.TakeWhile

/-! Decimal texts of binary64 numbers. However the shortest digits are laid out, the text
stands for a number that rounds to the one it was written for, so it is read back. -/

namespace GribCatalog.Binary64

theorem ten_pow_pos (k : Nat) : 0 < 10 ^ k :=
  Nat.pow_pos (by decide)

theorem roundMagnitude_eq_of_mul_eq {a b c d : Nat} (hb : 0 < b) (hd : 0 < d)
    (h : a * d = c * b) : roundMagnitude a b = roundMagnitude c d := by
  rw [← roundMagnitude_mul hd a b, ← roundMagnitude_mul hb c d, h, Nat.mul_comm b d]

def decimalMagnitude (c : Nat) (e : Int) : Nat :=
  roundMagnitude (c * 10 ^ e.toNat) (10 ^ (-e).toNat)

theorem decimalMagnitude_sub (c k : Nat) (e : Int) :
    decimalMagnitude (c * 10 ^ k) (e - k) = decimalMagnitude c e := by
  refine roundMagnitude_eq_of_mul_eq (ten_pow_pos _) (ten_pow_pos _) ?_
  simp only [Nat.mul_assoc, ← pow_add]
  congr 2
  omega

theorem decimalMagnitude_natCast_sub (c u p : Nat) :
    decimalMagnitude c ((u : Int) - p) = roundMagnitude (c * 10 ^ u) (10 ^ p) := by
  refine roundMagnitude_eq_of_mul_eq (ten_pow_pos _) (ten_pow_pos _) ?_
  simp only [Nat.mul_assoc, ← pow_add]
  congr 2
  omega

theorem two_pow_le_ten_pow {j k : Nat} (h : j ≤ 3 * k) : 2 ^ j ≤ 10 ^ k :=
  calc 2 ^ j ≤ 2 ^ (3 * k) := Nat.pow_le_pow_right Nat.two_pos h
    _ = (2 ^ 3) ^ k := pow_mul 2 3 k
    _ ≤ 10 ^ k := Nat.pow_le_pow_left (by decide) k

/-- Below `10 ^ -400` everything is rounded to zero. -/
theorem decimalMagnitude_of_lt {c n : Nat} {e : Int} (hc : c < 10 ^ n) (h : n + e < -400) :
    decimalMagnitude c e = 0 := by
  have scaled (j k : Nat) (hj : j + 1 ≤ 3 * k) (hk : n + k ≤ (-e).toNat) :
      2 * (c * 2 ^ j) < 10 ^ (-e).toNat :=
    calc 2 * (c * 2 ^ j) = c * 2 ^ (j + 1) := by
          rw [Nat.mul_left_comm, pow_succ, Nat.mul_comm 2]
      _ < 10 ^ n * 2 ^ (j + 1) := (Nat.mul_lt_mul_right (Nat.two_pow_pos _)).mpr hc
      _ ≤ 10 ^ n * 10 ^ k := Nat.mul_le_mul_left _ (two_pow_le_ten_pow hj)
      _ = 10 ^ (n + k) := (pow_add 10 n k).symm
      _ ≤ 10 ^ (-e).toNat := Nat.pow_le_pow_right (by decide) hk
  have he : e.toNat = 0 := by omega
  rw [decimalMagnitude, he, Nat.pow_zero, Nat.mul_one]
  exact roundMagnitude_of_lt (scaled 1074 400 (by decide) (by omega))

/-- From `10 ^ 400` on everything is rounded to infinity. -/
theorem decimalMagnitude_of_le {c n : Nat} {e : Int} (hc : 10 ^ n ≤ c) (h : 400 ≤ n + e) :
    decimalMagnitude c e = infinite := by
  refine roundMagnitude_of_le (ten_pow_pos _) ?_
  calc 10 ^ (-e).toNat * 2 ^ 1025 ≤ 10 ^ (-e).toNat * 10 ^ 400 :=
        Nat.mul_le_mul_left _ (two_pow_le_ten_pow (by decide))
    _ = 10 ^ ((-e).toNat + 400) := (pow_add 10 _ 400).symm
    _ ≤ 10 ^ (n + e.toNat) := Nat.pow_le_pow_right (by decide) (by omega)
    _ = 10 ^ n * 10 ^ e.toNat := pow_add 10 n _
    _ ≤ c * 10 ^ e.toNat := Nat.mul_le_mul_right _ hc

/-- The limits on the point leave out only what is rounded to zero or to infinity anyway. -/
theorem magnitudeOfDecimal_eq (c : Nat) (e : Int) :
    magnitudeOfDecimal c e = decimalMagnitude c e := by
  rcases Nat.eq_zero_or_pos c with rfl | hc
  · rw [decimalMagnitude, Nat.zero_mul, roundMagnitude_zero (ten_pow_pos _)]
    rfl
  have hlength := Text.length_digits_pos c
  have hlt := Text.lt_pow_length_digits c
  have hle := Text.pow_le_of_lt_length_digits hc (Nat.sub_one_lt (Nat.ne_of_gt hlength))
  simp only [magnitudeOfDecimal]
  split
  · next h =>
    simp only [Bool.or_eq_true, decide_eq_true_eq] at h
    exact (decimalMagnitude_of_lt hlt (h.resolve_left (Nat.ne_of_gt hc))).symm
  split
  · exact (decimalMagnitude_of_le hle (by omega)).symm
  split
  · have : (-e).toNat = 0 := by omega
    rw [decimalMagnitude, this]
    rfl
  · have hnat : e.toNat = 0 := by omega
    have : (-e).toNat = e.natAbs := by omega
    rw [decimalMagnitude, hnat, this, Nat.pow_zero, Nat.mul_one]
    rfl

theorem natPow_eq (b k : Nat) : Nat.pow b k = b ^ k := rfl

theorem roundsTo_iff {m c u : Nat} :
    roundsTo m c u = true ↔ decimalMagnitude c (u - (1074 : Nat)) = m := by
  rw [roundsTo, decide_eq_true_iff, decimalMagnitude_natCast_sub, natPow_eq, natPow_eq]

theorem decimalMagnitude_decimalUnits {m : Nat} (h : m < infinite) :
    decimalMagnitude (decimalUnits m) ((0 : Nat) - (1074 : Nat)) = m := by
  obtain ⟨p, hp⟩ : ∃ p, p = 1074 := ⟨_, rfl⟩
  have hround : roundMagnitude (units m) (2 ^ p) = m := by
    rw [hp]
    exact roundMagnitude_units h
  rw [decimalUnits, ← hp, decimalMagnitude_natCast_sub, natPow_eq, Nat.pow_zero, Nat.mul_one,
    show (10 : Nat) = 2 * 5 from rfl, Nat.mul_pow, roundMagnitude_mul (Nat.pow_pos (by decide)),
    hround]

/-- The shortest decimal rounds to the magnitude that it is sought for. -/
theorem decimalMagnitude_shortestUnits (tieUp : Bool) {m : Nat} (h : m < infinite) :
    decimalMagnitude (shortestUnits tieUp m).1 ((shortestUnits tieUp m).2 - (1074 : Nat)) = m := by
  unfold shortestUnits
  extract_lets exact len found
  cases hfound : found with
  | none => exact decimalMagnitude_decimalUnits h
  | some best =>
    obtain ⟨i, -, hi⟩ := List.exists_of_findSome?_eq_some hfound
    obtain ⟨c, hc, rfl⟩ := Option.map_eq_some_iff.mp hi
    have hrounds := List.find?_some hc
    rw [roundsTo_iff] at hrounds
    exact hrounds

/-! ### Digits and their layout -/

theorem significant_append_zeros (ds : List Char) :
    ∃ k, significant ds ++ List.replicate k '0' = ds := by
  refine ⟨(ds.reverse.takeWhile (· == '0')).length, ?_⟩
  have hzeros : ds.reverse.takeWhile (· == '0') =
      List.replicate (ds.reverse.takeWhile (· == '0')).length '0' :=
    List.eq_replicate_of_mem fun c hc =>
      eq_of_beq (List.mem_takeWhile_imp (p := fun c => c == '0') hc)
  have hsplit := congrArg List.reverse
    (List.takeWhile_append_dropWhile (p := (· == '0')) (l := ds.reverse))
  rw [List.reverse_append, List.reverse_reverse, hzeros, List.reverse_replicate] at hsplit
  exact hsplit

structure Leading (ds : List Char) : Prop where
  digits : ∀ c ∈ ds, c.isDigit = true
  head : ∃ d rest, ds = d :: rest ∧ d ≠ '0'

theorem leading_significant {n : Nat} (h : 0 < n) : Leading (significant (Text.digits n)) := by
  obtain ⟨k, hk⟩ := significant_append_zeros (Text.digits n)
  obtain ⟨d, ds, hds, hd⟩ := Text.exists_digits_eq_cons h
  constructor
  · exact fun c hc => Text.isDigit_of_mem_digits (hk ▸ List.mem_append_left _ hc)
  · rw [hds] at hk ⊢
    cases hs : significant (d :: ds) with
    | nil =>
      rw [hs, List.nil_append] at hk
      have : d ∈ List.replicate k '0' := hk ▸ List.mem_cons_self
      exact absurd (List.mem_replicate.mp this).2 hd
    | cons c cs =>
      rw [hs] at hk
      obtain ⟨rfl, -⟩ := List.cons.inj hk
      exact ⟨c, cs, rfl, hd⟩

structure Layout where
  whole : List Char
  fraction : List Char
  exponent : Option Int

namespace Layout

def fractionChars : List Char → List Char
  | [] => []
  | ds => '.' :: ds

def exponentChars : Option Int → List Char
  | none => []
  | some e => 'e' :: (if e < 0 then '-' else '+') :: Text.digits e.natAbs

def chars (l : Layout) : List Char :=
  l.whole ++ fractionChars l.fraction ++ exponentChars l.exponent

def coefficient (l : Layout) : Nat :=
  Nat.ofDigitChars 10 (l.whole ++ l.fraction) 0

def power (l : Layout) : Int :=
  l.exponent.getD 0 - l.fraction.length

structure Shows (l : Layout) (c : Nat) (e : Int) : Prop where
  whole : ∀ d ∈ l.whole, d.isDigit = true
  leading : l.whole = ['0'] ∨ Leading l.whole
  fraction : ∀ d ∈ l.fraction, d.isDigit = true
  value : ∃ k : Nat, l.coefficient = c * 10 ^ k ∧ l.power = e - k

theorem Shows.decimalMagnitude_eq {l : Layout} {c : Nat} {e : Int} (h : l.Shows c e) :
    decimalMagnitude l.coefficient l.power = decimalMagnitude c e := by
  obtain ⟨k, hcoefficient, hpower⟩ := h.value
  rw [hcoefficient, hpower, decimalMagnitude_sub]

end Layout

namespace Layout

variable {ds : List Char}

theorem fractionChars_of_ne_nil (h : ds ≠ []) : fractionChars ds = '.' :: ds := by
  cases ds with
  | nil => exact absurd rfl h
  | cons d ds => rfl

theorem isDigit_of_mem_zeros {k : Nat} {d : Char} (h : d ∈ List.replicate k '0') :
    d.isDigit = true :=
  (List.mem_replicate.mp h).2 ▸ rfl

theorem shows_below (hds : Leading ds) (k : Nat) :
    Shows ⟨['0'], List.replicate k '0' ++ ds, none⟩ (Nat.ofDigitChars 10 ds 0)
      (-k - ds.length) where
  whole d hd := List.mem_singleton.mp hd ▸ rfl
  leading := .inl rfl
  fraction d hd := (List.mem_append.mp hd).elim isDigit_of_mem_zeros (hds.digits d)
  value := by
    refine ⟨0, ?_, ?_⟩
    · rw [coefficient, ← List.append_assoc, List.singleton_append, ← List.replicate_succ,
        Nat.ofDigitChars_append, Nat.ofDigitChars_replicate_zero, Nat.mul_zero, Nat.pow_zero,
        Nat.mul_one]
    · simp [power]
      omega

theorem shows_within (hds : Leading ds) {k : Nat} (hk : 0 < k) (hlength : k ≤ ds.length) :
    Shows ⟨ds.take k, ds.drop k, none⟩ (Nat.ofDigitChars 10 ds 0) (k - ds.length) where
  whole d hd := hds.digits d (List.mem_of_mem_take hd)
  leading := by
    obtain ⟨d, rest, rfl, hd⟩ := hds.head
    refine .inr ⟨fun c hc => hds.digits c (List.mem_of_mem_take hc), d, rest.take (k - 1), ?_, hd⟩
    exact List.take_cons hk
  fraction d hd := hds.digits d (List.mem_of_mem_drop hd)
  value := by
    refine ⟨0, ?_, ?_⟩
    · rw [coefficient, List.take_append_drop, Nat.pow_zero, Nat.mul_one]
    · simp [power]
      omega

theorem shows_beyond (hds : Leading ds) (k j : Nat) :
    Shows ⟨ds ++ List.replicate k '0', List.replicate j '0', none⟩ (Nat.ofDigitChars 10 ds 0)
      k where
  whole d hd := (List.mem_append.mp hd).elim (hds.digits d) isDigit_of_mem_zeros
  leading := by
    obtain ⟨d, rest, rfl, hd⟩ := hds.head
    refine .inr ⟨fun c hc => ?_, d, _, rfl, hd⟩
    exact (List.mem_append.mp hc).elim (hds.digits c) isDigit_of_mem_zeros
  fraction d hd := isDigit_of_mem_zeros hd
  value := by
    refine ⟨k + j, ?_, ?_⟩
    · rw [coefficient, List.append_assoc, List.replicate_append_replicate,
        Nat.ofDigitChars_append, Nat.ofDigitChars_replicate_zero, Nat.mul_comm]
    · simp [power]

theorem shows_exponent {d : Char} (hds : Leading (d :: ds)) (e : Int) :
    Shows ⟨[d], ds, some e⟩ (Nat.ofDigitChars 10 (d :: ds) 0) (e - ds.length) where
  whole c hc := hds.digits c (List.mem_singleton.mp hc ▸ List.mem_cons_self)
  leading := by
    obtain ⟨_, _, heq, hd⟩ := hds.head
    obtain ⟨rfl, -⟩ := List.cons.inj heq
    exact .inr ⟨fun c hc => hds.digits c (List.mem_singleton.mp hc ▸ List.mem_cons_self),
      d, [], rfl, hd⟩
  fraction c hc := hds.digits c (List.mem_cons_of_mem d hc)
  value := ⟨0, by rw [coefficient, Nat.pow_zero, Nat.mul_one]; rfl, by simp [power]⟩

end Layout

section Layouts

variable {style : Style} {ds : List Char}

theorem positionalText_shows (hstyle : style.whole = [] ∨ style.whole = ['.', '0'])
    (hds : Leading ds) (point : Int) :
    ∃ l : Layout, positionalText style ds point = l.chars ∧
      l.Shows (Nat.ofDigitChars 10 ds 0) (point - ds.length) := by
  have hne : ds ≠ [] := by
    obtain ⟨d, rest, rfl, -⟩ := hds.head
    exact List.cons_ne_nil d rest
  unfold positionalText
  split
  · next hpoint =>
    have hpoint : -(point.natAbs : Int) = point := by omega
    refine ⟨_, ?_, hpoint ▸ Layout.shows_below hds _⟩
    rw [Layout.chars, Layout.fractionChars_of_ne_nil (by simp [hne])]
    simp [Layout.exponentChars]
  split
  · have hzeros : ((point.toNat - ds.length : Nat) : Int) = point - ds.length := by omega
    rcases hstyle with hstyle | hstyle
    · refine ⟨_, ?_, hzeros ▸ Layout.shows_beyond hds _ 0⟩
      simp [hstyle, Layout.chars, Layout.fractionChars, Layout.exponentChars]
    · refine ⟨_, ?_, hzeros ▸ Layout.shows_beyond hds _ 1⟩
      simp [hstyle, Layout.chars, Layout.fractionChars, Layout.exponentChars]
  · have hwhole : (point.toNat : Int) = point := by omega
    refine ⟨_, ?_, hwhole ▸ Layout.shows_within hds (show 0 < point.toNat by omega) (by omega)⟩
    rw [Layout.chars, Layout.fractionChars_of_ne_nil (by simp; omega)]
    simp [Layout.exponentChars]

theorem exponentText_shows (hds : Leading ds) (point : Int) :
    ∃ l : Layout, exponentText ds point = l.chars ∧
      l.Shows (Nat.ofDigitChars 10 ds 0) (point - ds.length) := by
  obtain ⟨d, rest, rfl, hd⟩ := hds.head
  have hpower : point - 1 - rest.length = point - (d :: rest).length := by
    simp
    omega
  refine ⟨_, ?_, hpower ▸ Layout.shows_exponent hds (point - 1)⟩
  cases rest <;> simp [exponentText, Layout.chars, Layout.fractionChars, Layout.exponentChars]

theorem zeroText_shows (hstyle : style.whole = [] ∨ style.whole = ['.', '0']) :
    ∃ l : Layout, '0' :: style.whole = l.chars ∧ l.Shows 0 0 := by
  have hzero : ∀ d ∈ ['0'], d.isDigit = true := fun _ hd => List.mem_singleton.mp hd ▸ rfl
  rcases hstyle with hstyle | hstyle <;> rw [hstyle]
  · exact ⟨⟨['0'], [], none⟩, rfl, hzero, .inl rfl, nofun, 0, rfl, rfl⟩
  · exact ⟨⟨['0'], ['0'], none⟩, rfl, hzero, .inl rfl, hzero, 1, rfl, rfl⟩

theorem shortest_spec (tieUp : Bool) {m : Nat} (hpos : 0 < m) (h : m < infinite) :
    Leading (shortest tieUp m).1 ∧
      decimalMagnitude (Nat.ofDigitChars 10 (shortest tieUp m).1 0)
        ((shortest tieUp m).2 - (shortest tieUp m).1.length) = m := by
  have hround := decimalMagnitude_shortestUnits tieUp h
  rw [shortest]
  generalize shortestUnits tieUp m = best at hround ⊢
  obtain ⟨c, u⟩ := best
  simp only at hround ⊢
  have hc : 0 < c := by
    refine Nat.pos_of_ne_zero fun hzero => Nat.ne_of_gt hpos ?_
    rw [← hround, hzero, decimalMagnitude, Nat.zero_mul, roundMagnitude_zero (ten_pow_pos _)]
  refine ⟨leading_significant hc, ?_⟩
  obtain ⟨k, hk⟩ := significant_append_zeros (Text.digits c)
  have hvalue := Text.ofDigitChars_digits c
  have hlength := congrArg List.length hk
  rw [List.length_append, List.length_replicate] at hlength
  rw [← hk, Nat.ofDigitChars_append, Nat.ofDigitChars_replicate_zero, Nat.mul_comm] at hvalue
  have hexponent : ((Text.digits c).length + u : Nat) - 1074 -
      (significant (Text.digits c)).length - (k : Int) = u - (1074 : Nat) := by
    omega
  rw [← decimalMagnitude_sub _ k, hvalue, hexponent, hround]

/-- A finite magnitude's text stands for a number that rounds to it. -/
theorem magnitudeText_shows (hstyle : style.whole = [] ∨ style.whole = ['.', '0']) {m : Nat}
    (h : m < infinite) :
    ∃ (l : Layout) (c : Nat) (e : Int),
      magnitudeText style m = l.chars ∧ l.Shows c e ∧ decimalMagnitude c e = m := by
  rw [magnitudeText]
  split
  · next hzero =>
    obtain ⟨l, hchars, hshows⟩ := zeroText_shows hstyle
    refine ⟨l, 0, 0, hchars, hshows, ?_⟩
    rw [decimalMagnitude, Nat.zero_mul, roundMagnitude_zero (ten_pow_pos _), hzero]
  · next hne =>
    obtain ⟨hleading, hround⟩ := shortest_spec style.tieUp (Nat.pos_of_ne_zero hne) h
    simp only
    split
    · obtain ⟨l, hchars, hshows⟩ := positionalText_shows hstyle hleading _
      exact ⟨l, _, _, hchars, hshows, hround⟩
    · obtain ⟨l, hchars, hshows⟩ := exponentText_shows hleading _
      exact ⟨l, _, _, hchars, hshows, hround⟩

end Layouts

/-! ### Reading a layout -/

namespace Layout

theorem exponentPart?_exponentChars (e : Option Int) :
    exponentPart? (exponentChars e) = some e := by
  cases e with
  | none => rfl
  | some e =>
    rw [exponentChars, exponentPart?, if_pos (by rfl)]
    split
    · rw [Text.integer?, Text.natural?_digits]
      exact congrArg (some ∘ some) (show -(e.natAbs : Int) = e by omega)
    · rw [Text.integer?, Text.natural?_digits]
      exact congrArg (some ∘ some) (show (e.natAbs : Int) = e by omega)

theorem head_exponentChars (e : Option Int) :
    ∀ c ∈ (exponentChars e).head?, c.isDigit = false := by
  cases e <;> simp [exponentChars]

theorem Shows.head_whole {l : Layout} {c : Nat} {e : Int} (h : l.Shows c e) :
    ∃ d rest, l.whole = d :: rest ∧ d.isDigit = true := by
  have hwhole := h.whole
  rcases h.leading with hleading | ⟨-, d, rest, hleading, -⟩
  · exact ⟨'0', [], hleading, rfl⟩
  · exact ⟨d, rest, hleading, hwhole d (hleading ▸ List.mem_cons_self)⟩

/-- A sound layout is read as the numeral that it shows. -/
theorem Shows.numeral?_chars {l : Layout} {c : Nat} {e : Int} (h : l.Shows c e) :
    numeral? l.chars =
      some ⟨l.coefficient, l.power, l.fraction = [] && l.exponent.isNone⟩ := by
  have hne : l.whole ≠ [] := by
    obtain ⟨d, rest, hwhole, -⟩ := h.head_whole
    exact hwhole ▸ List.cons_ne_nil d rest
  have hhead := head_exponentChars l.exponent
  have hread := exponentPart?_exponentChars l.exponent
  rw [numeral?, chars, List.append_assoc]
  cases hfraction : l.fraction with
  | nil =>
    rw [fractionChars, List.nil_append, Text.takeWhile_append h.whole hhead,
      Text.dropWhile_append h.whole hhead]
    cases hexponent : l.exponent <;> rw [hexponent, exponentChars] at hread <;>
      simp [exponentChars, hread, hne, coefficient, power, hfraction, hexponent]
  | cons d ds =>
    have hdigits := h.fraction
    rw [hfraction] at hdigits
    have hdot : ∀ c ∈ (fractionChars (d :: ds) ++ exponentChars l.exponent).head?,
        c.isDigit = false := by simp [fractionChars]
    rw [Text.takeWhile_append h.whole hdot, Text.dropWhile_append h.whole hdot]
    simp only [fractionChars, List.cons_append]
    rw [← List.cons_append, Text.takeWhile_append hdigits hhead,
      Text.dropWhile_append hdigits hhead]
    simp [hread, hne, coefficient, power, hfraction]

end Layout

theorem unsigned?_magnitudeText {style : Style}
    (hstyle : style.whole = [] ∨ style.whole = ['.', '0']) {m : Nat} (h : m < infinite) :
    unsigned? (magnitudeText style m) = some (ofMagnitude false m) := by
  obtain ⟨l, c, e, hchars, hshows, hround⟩ := magnitudeText_shows hstyle h
  rw [hchars, unsigned?, hshows.numeral?_chars]
  simp only
  rw [magnitudeOfDecimal_eq, hshows.decimalMagnitude_eq, hround]

theorem unsigned?_inf : unsigned? "inf".toList = some infinity := by
  decide +kernel

theorem ne_sign_of_isDigit {c : Char} (h : c.isDigit = true) : c ≠ '+' ∧ c ≠ '-' := by
  constructor <;> rintro rfl <;> cases h

theorem read?_eq_unsigned? {c : Char} {cs : List Char} (h : c ≠ '+' ∧ c ≠ '-') :
    read? (c :: cs) = unsigned? (c :: cs) := by
  unfold read?
  split
  · next heq => exact absurd (List.cons.inj heq).1 h.1
  · next heq => exact absurd (List.cons.inj heq).1 h.2
  · rfl

theorem read?_text {style : Style} (hstyle : style.whole = [] ∨ style.whole = ['.', '0'])
    {x : Binary64} (h : x.isNaN = false) : read? (x.text style) = some x := by
  have hle : x.magnitude ≤ infinite := by simpa [isNaN] using h
  have hx := ofMagnitude_magnitude x
  obtain ⟨c, cs, htext, hsign, hread⟩ : ∃ c cs,
      (if x.isInfinite then "inf".toList else magnitudeText style x.magnitude) = c :: cs ∧
      (c ≠ '+' ∧ c ≠ '-') ∧ unsigned? (c :: cs) = some (ofMagnitude false x.magnitude) := by
    split
    · next hinfinite =>
      refine ⟨'i', ['n', 'f'], rfl, by decide, ?_⟩
      rw [of_decide_eq_true hinfinite]
      exact unsigned?_inf
    · next hinfinite =>
      have hlt : x.magnitude < infinite :=
        Nat.lt_of_le_of_ne hle (by simpa [isInfinite] using hinfinite)
      have hread := unsigned?_magnitudeText hstyle hlt
      obtain ⟨l, c, e, hchars, hshows, -⟩ := magnitudeText_shows hstyle hlt
      obtain ⟨d, rest, hwhole, hd⟩ := hshows.head_whole
      rw [hchars, Layout.chars, hwhole] at hread ⊢
      exact ⟨d, _, rfl, ne_sign_of_isDigit hd, hread⟩
  rw [text, if_neg (by simp [h]), htext]
  cases hnegative : x.isNegative <;> rw [hnegative] at hx
  · exact (read?_eq_unsigned? hsign).trans (hread.trans (congrArg some hx))
  · refine (congrArg (Option.map (withSign true)) hread).trans ?_
    rw [Option.map_some, withSign, magnitude_ofMagnitude (Nat.lt_of_le_of_lt hle (by decide)), hx]

end GribCatalog.Binary64
