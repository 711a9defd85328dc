import GribCatalog.Proofs.Axis
import GribCatalog.Proofs.Calendar
import GribCatalog.Proofs.Decimal
import GribCatalog.Proofs.Query

/-! Values and their texts. The text of a value is read as the value, except for three kinds of
value. A period that starts below zero is not read, nor is a reference time of a year that has not
four digits, and a leap second inside a minute is read as the second after it. -/

namespace GribCatalog

/-! ### Texts without blanks -/

namespace Text

theorem isBlank_of_mem_digits {n : Nat} {c : Char} (h : c ∈ digits n) : isBlank c = false :=
  isBlank_of_isDigit (isDigit_of_mem_digits h)

theorem isBlank_of_mem_padded {width n : Nat} {c : Char} (h : c ∈ padded width n) :
    isBlank c = false :=
  isBlank_of_isDigit (isDigit_of_mem_padded h)

theorem isBlank_of_mem_integerDigits {n : Int} {c : Char} (h : c ∈ integerDigits n) :
    isBlank c = false := by
  unfold integerDigits at h
  split at h
  · rcases List.mem_cons.mp h with rfl | h
    · decide
    · exact isBlank_of_mem_digits h
  · exact isBlank_of_mem_digits h

/-- Two texts and what stands between them. -/
theorem isBlank_of_mem_pair {as bs : List Char} {sep c : Char}
    (has : ∀ c ∈ as, isBlank c = false) (hsep : isBlank sep = false)
    (hbs : ∀ c ∈ bs, isBlank c = false) (h : c ∈ as ++ sep :: bs) : isBlank c = false := by
  rcases List.mem_append.mp h with h | h
  · exact has c h
  rcases List.mem_cons.mp h with rfl | h
  · exact hsep
  · exact hbs c h

end Text

open Text (isBlank_of_mem_digits isBlank_of_mem_padded isBlank_of_mem_integerDigits)

theorem Binary64.Layout.Shows.isBlank_of_mem_chars {l : Layout} {n : Nat} {e : Int}
    (hl : l.Shows n e) {c : Char} (h : c ∈ l.chars) : Text.isBlank c = false := by
  rw [chars, List.mem_append, List.mem_append] at h
  rcases h with (h | h) | h
  · exact Text.isBlank_of_isDigit (hl.whole c h)
  · cases hfraction : l.fraction with
    | nil =>
      rw [hfraction] at h
      cases h
    | cons d ds =>
      rw [hfraction] at h
      rcases List.mem_cons.mp h with rfl | h
      · decide
      · exact Text.isBlank_of_isDigit (hl.fraction c (hfraction ▸ h))
  · cases hexponent : l.exponent with
    | none =>
      rw [hexponent] at h
      cases h
    | some k =>
      rw [hexponent, exponentChars, List.mem_cons, List.mem_cons] at h
      rcases h with rfl | rfl | h
      · decide
      · split <;> decide
      · exact isBlank_of_mem_digits h

theorem Binary64.isBlank_of_mem_text {x : Binary64} (hx : x.isNaN = false) {c : Char}
    (h : c ∈ x.text .plain) : Text.isBlank c = false := by
  rw [text, if_neg (by simp [hx]), List.mem_append] at h
  rcases h with h | h
  · split at h
    · rw [List.mem_singleton.mp h]
      decide
    · cases h
  split at h
  · exact Text.eq_false_of_all_not rfl h
  · next hfinite =>
    have hlt : x.magnitude < infinite := by
      simp only [isNaN, isInfinite, decide_eq_false_iff_not, decide_eq_true_eq] at hx hfinite
      omega
    have hplain : Style.plain.whole = [] ∨ Style.plain.whole = ['.', '0'] := .inl rfl
    obtain ⟨l, n, e, hchars, hl, -⟩ := magnitudeText_shows hplain hlt
    exact hl.isBlank_of_mem_chars (hchars ▸ h)

theorem Instant.isBlank_of_mem_fractionText {nanos : Nat} {c : Char} (h : c ∈ fractionText nanos) :
    Text.isBlank c = false := by
  have hpoint {width n : Nat} (h : c ∈ '.' :: Text.padded width n) : Text.isBlank c = false := by
    rcases List.mem_cons.mp h with rfl | h
    · decide
    · exact isBlank_of_mem_padded h
  unfold fractionText at h
  split at h
  · cases h
  split at h
  · exact hpoint h
  split at h <;> exact hpoint h

theorem Instant.isBlank_of_mem_yearText {year : Int} {c : Char} (h : c ∈ yearText year) :
    Text.isBlank c = false := by
  unfold yearText at h
  split at h
  · exact isBlank_of_mem_padded h
  · rcases List.mem_cons.mp h with rfl | h
    · split <;> decide
    · exact isBlank_of_mem_padded h

theorem Instant.isBlank_of_mem_textWith {zone : List Char}
    (hzone : ∀ c ∈ zone, Text.isBlank c = false) (t : Instant) :
    ∀ c ∈ t.textWith zone, Text.isBlank c = false := by
  have hpadded (width n : Nat) : ∀ c ∈ Text.padded width n, Text.isBlank c = false :=
    fun _ => isBlank_of_mem_padded
  simp only [textWith, List.append_assoc, List.cons_append, List.forall_mem_append,
    List.forall_mem_cons]
  exact ⟨fun _ => isBlank_of_mem_yearText, by decide, hpadded _ _, by decide, hpadded _ _,
    by decide, hpadded _ _, by decide, hpadded _ _, by decide, hpadded _ _,
    fun _ => isBlank_of_mem_fractionText, hzone⟩

/-! ### Leap seconds -/

namespace Instant

/-- The instant that the text of an instant shows. A leap second inside a minute shows as the second
after it. -/
def settled (t : Instant) : Instant :=
  if 1000000000 ≤ t.nanos ∧ t.seconds % 60 ≠ 59 then ⟨t.seconds + 1, t.nanos - 1000000000⟩ else t

variable {t : Instant}

theorem IsCivil.settled_eq (h : t.IsCivil) : t.settled = t := by
  have hnanos := h.nanos
  exact if_neg (by omega)

theorem isCivil_settled (ht : t.isRepresentable = true) (hnanos : t.nanos < 2000000000) :
    t.settled.IsCivil := by
  unfold settled
  split
  · next hlate =>
    refine ⟨?_, .inl (show t.nanos - 1000000000 < 1000000000 by omega)⟩
    -- The last second of all is the last of a minute.
    have hlast : lastSecond % 60 = 59 := by decide
    rw [isRepresentable, Bool.and_eq_true, decide_eq_true_iff, decide_eq_true_iff] at ht ⊢
    simp only
    omega
  · next hprompt => exact ⟨ht, by omega⟩

theorem textWith_settled (zone : List Char) (hnanos : t.nanos < 2000000000) :
    t.settled.textWith zone = t.textWith zone := by
  unfold settled
  split
  · next hlate =>
    obtain ⟨hlong, hinside⟩ := hlate
    have hday : (t.seconds + 1) / 86400 = t.seconds / 86400 := by omega
    have hsecond : ((t.seconds + 1) % 86400).toNat = (t.seconds % 86400).toNat + 1 := by omega
    generalize hs : (t.seconds % 86400).toNat = second at hsecond
    have hhour : (second + 1) / 3600 = second / 3600 := by omega
    have hminute : (second + 1) / 60 % 60 = second / 60 % 60 := by omega
    have hshown : (second + 1) % 60 = second % 60 + 1 := by omega
    simp only [textWith, hday, hsecond, hs, hhour, hminute, hshown, if_pos hlong,
      if_neg (show ¬ 1000000000 ≤ t.nanos - 1000000000 by omega), Nat.zero_mul, Nat.one_mul,
      Nat.sub_zero, Nat.add_zero]
  · rfl

theorem year_settled (t : Instant) : t.settled.year = t.year := by
  unfold settled
  split
  · next hlate =>
    have hday : (t.seconds + 1) / 86400 = t.seconds / 86400 := by omega
    simp only [year, hday]
  · rfl

theorem ofRfc3339?_text (ht : t.isRepresentable = true) (hnanos : t.nanos < 2000000000) :
    ofRfc3339? t.text = if 0 ≤ t.year ∧ t.year ≤ 9999 then some t.settled else none := by
  rw [text, ← textWith_settled _ hnanos, ← year_settled]
  exact (isCivil_settled ht hnanos).ofRfc3339?_text

end Instant

/-! ### Reading what is written -/

namespace AxisValue

theorem readPair?_append {α β : Type} {sep : Char} {first : List Char → Option α}
    {second : List Char → Option β} {as bs : List Char} {a : α} {b : β} (hsep : sep ∉ as)
    (has : ∀ c ∈ as, Text.isBlank c = false) (hbs : ∀ c ∈ bs, Text.isBlank c = false)
    (ha : first as = some a) (hb : second bs = some b) :
    readPair? sep first second (as ++ sep :: bs) = some (a, b) := by
  rw [readPair?, Text.splitOnce?_append hsep]
  simp only [Option.bind_eq_bind, Option.bind_some, Text.trim_of_not_blank has,
    Text.trim_of_not_blank hbs, ha, hb]

theorem readOctet?_digits (n : UInt8) : readOctet? (Text.digits n.toNat) = some n := by
  rw [readOctet?, Text.unsigned?_digits n.toNat_lt, Option.map_some, UInt8.ofNat_toNat]

theorem readNumber?_digits (n : UInt16) : readNumber? (Text.digits n.toNat) = some n := by
  rw [readNumber?, Text.unsigned?_digits n.toNat_lt, Option.map_some, UInt16.ofNat_toNat]

theorem not_mem_digits {sep : Char} (h : sep.isDigit = false) (n : Nat) : sep ∉ Text.digits n := by
  intro hmem
  rw [Text.isDigit_of_mem_digits hmem] at h
  cases h

/-- Values that axes of a kind may hold. An instant has less than two seconds of nanoseconds. -/
inductive OfKind : AxisKind → AxisValue → Prop
  | offset (n : Int64) : OfKind .time (offset n)
  | period (p : Period) : OfKind .timeInterval (period p)
  | runtime {t : Instant} :
      t.isRepresentable = true → t.nanos < 2000000000 → OfKind .runtime (runtime t)
  | level (l : Level) : OfKind .vertical (level l)
  | member (m : Member) : OfKind .ensemble (member m)

/-- The value that the text of a value is read as. -/
def reread? : AxisValue → Option AxisValue
  | period p => if 0 ≤ p.start.toInt then some (period p) else none
  | runtime t => if 0 ≤ t.year ∧ t.year ≤ 9999 then some (runtime t.settled) else none
  | v => some v

/-- Whether the text of a value stands for the value. -/
def IsLegible : AxisValue → Prop
  | period p => 0 ≤ p.start.toInt
  | runtime t => t.IsCivil ∧ 0 ≤ t.year ∧ t.year ≤ 9999
  | _ => True

variable {kind : AxisKind} {v : AxisValue}

theorem OfKind.isBlank_of_mem_chars (hv : v.OfKind kind) {c : Char} (h : c ∈ v.chars) :
    Text.isBlank c = false := by
  cases hv with
  | offset n => exact isBlank_of_mem_integerDigits h
  | period p =>
    exact Text.isBlank_of_mem_pair (fun _ => isBlank_of_mem_integerDigits) rfl
      (fun _ => isBlank_of_mem_integerDigits) h
  | runtime _ _ =>
    exact Instant.isBlank_of_mem_textWith (fun _ => Text.eq_false_of_all_not rfl) _ c h
  | level l =>
    exact Text.isBlank_of_mem_pair (fun _ => isBlank_of_mem_digits) rfl
      (fun _ => Binary64.isBlank_of_mem_text l.isNumber) h
  | member m =>
    exact Text.isBlank_of_mem_pair (fun _ => isBlank_of_mem_digits) rfl
      (fun _ => isBlank_of_mem_digits) h

theorem OfKind.trim_display (hv : v.OfKind kind) : Text.trim v.display.toList = v.chars := by
  rw [display, String.toList_ofList, Text.trim_of_not_blank fun c hc => hv.isBlank_of_mem_chars hc]

/-- The text of a period is split at its first dash, so that the start must not have a sign. -/
theorem ofTrimmed?_period (p : Period) :
    ofTrimmed? .timeInterval (period p).chars =
      if 0 ≤ p.start.toInt then some (period p) else none := by
  rw [ofTrimmed?, chars]
  split
  · next hstart =>
    have hdigits : Text.integerDigits p.start.toInt = Text.digits p.start.toInt.natAbs :=
      if_neg (Int.not_lt.mpr hstart)
    have hsep : '-' ∉ Text.integerDigits p.start.toInt := by
      rw [hdigits]
      exact not_mem_digits (by decide) _
    rw [readPair?_append hsep (fun _ => isBlank_of_mem_integerDigits)
      (fun _ => isBlank_of_mem_integerDigits) (Text.int64?_integerDigits _)
      (Text.int64?_integerDigits _), Option.map_some]
  · next hstart =>
    have hdigits : Text.integerDigits p.start.toInt = '-' :: Text.digits p.start.toInt.natAbs :=
      if_pos (Int.not_le.mp hstart)
    rw [hdigits, List.cons_append, readPair?, ← List.nil_append ('-' :: _),
      Text.splitOnce?_append List.not_mem_nil]
    rfl

/-- What the text of a value is read as, whatever the value. -/
theorem OfKind.ofText?_display (hv : v.OfKind kind) : ofText? kind v.display = v.reread? := by
  rw [ofText?, hv.trim_display]
  cases hv with
  | offset n =>
    rw [ofTrimmed?, chars, Text.int64?_integerDigits]
    rfl
  | period p => exact ofTrimmed?_period p
  | runtime ht hnanos =>
    rw [ofTrimmed?, chars, Instant.ofRfc3339?_text ht hnanos, reread?]
    split <;> rfl
  | level l =>
    rw [ofTrimmed?, chars, readPair?_append (not_mem_digits (by decide) _)
      (fun _ => isBlank_of_mem_digits) (fun _ => Binary64.isBlank_of_mem_text l.isNumber)
      (readOctet?_digits _) (Binary64.read?_text (.inl rfl) l.isNumber), Option.bind_some]
    exact congrArg (Option.map AxisValue.level) l.mk?_value
  | member m =>
    rw [ofTrimmed?, chars, readPair?_append (not_mem_digits (by decide) _)
      (fun _ => isBlank_of_mem_digits) (fun _ => isBlank_of_mem_digits) (readOctet?_digits _)
      (readNumber?_digits _)]
    rfl

theorem OfKind.reread?_eq_some_iff (hv : v.OfKind kind) : v.reread? = some v ↔ v.IsLegible := by
  cases hv with
  | period p => simp [reread?, IsLegible]
  | @runtime t ht hnanos =>
    have hsettled : t.settled = t ↔ t.IsCivil :=
      ⟨fun h => h ▸ Instant.isCivil_settled ht hnanos, Instant.IsCivil.settled_eq⟩
    simp [reread?, IsLegible, hsettled, and_comm]
  | offset n => exact iff_of_true rfl trivial
  | level l => exact iff_of_true rfl trivial
  | member m => exact iff_of_true rfl trivial

/-- The text of a value is read as the value exactly when it is legible. A text that is not read is
refused as it is written. -/
theorem ofText_display_eq_ok_iff (hv : v.OfKind kind) :
    (ofText kind v.display = .ok v ↔ v.IsLegible) ∧
    ofText kind v.display = v.reread?.elim (.error (.invalidValue kind v.display)) .ok := by
  have hread :
      ofText kind v.display = v.reread?.elim (.error (.invalidValue kind v.display)) .ok := by
    rw [ofText, hv.ofText?_display, hv.trim_display, ← display]
    cases v.reread? <;> rfl
  refine ⟨?_, hread⟩
  rw [← hv.reread?_eq_some_iff, hread]
  cases v.reread? <;> simp

/-- The first six hours of a forecast. -/
theorem ofText_display_six_hours :
    OfKind .timeInterval (period ⟨0, 6⟩) ∧ (period ⟨0, 6⟩).display = "0-6" ∧
      ofText .timeInterval "0-6" = .ok (period ⟨0, 6⟩) := by
  have shown : (period ⟨0, 6⟩).display = "0-6" := by decide +kernel
  have legible : (period ⟨0, 6⟩).IsLegible := show 0 ≤ (0 : Int64).toInt by decide
  refine ⟨.period _, shown, ?_⟩
  rw [← shown]
  exact (ofText_display_eq_ok_iff (.period _)).1.mpr legible

/-- The six hours before a forecast, a run of the year 12345, and a leap second after the first
second of a minute. -/
theorem illegible_displays :
    (OfKind .timeInterval (period ⟨-6, 0⟩) ∧ (period ⟨-6, 0⟩).display = "-6-0" ∧
      ofText .timeInterval "-6-0" = .error (.invalidValue .timeInterval "-6-0")) ∧
    (OfKind .runtime (runtime ⟨327416428800, 0⟩) ∧
      (runtime ⟨327416428800, 0⟩).display = "+12345-06-01T00:00:00+00:00" ∧
      ofText .runtime "+12345-06-01T00:00:00+00:00" =
        .error (.invalidValue .runtime "+12345-06-01T00:00:00+00:00")) ∧
    (OfKind .runtime (runtime ⟨1685577600, 1500000000⟩) ∧
      (runtime ⟨1685577600, 1500000000⟩).display = "2023-06-01T00:00:01.500+00:00" ∧
      ofText .runtime "2023-06-01T00:00:01.500+00:00" =
        .ok (runtime ⟨1685577601, 500000000⟩)) := by
  refine ⟨⟨.period _, ?_, ?_⟩, ⟨.runtime ?_ ?_, ?_, ?_⟩, ⟨.runtime ?_ ?_, ?_, ?_⟩⟩
  all_goals decide +kernel

end AxisValue

end GribCatalog
