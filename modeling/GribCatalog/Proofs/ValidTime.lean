import GribCatalog.Proofs.Calendar
import GribCatalog.Proofs.Extent
import GribCatalog.Proofs.Layout

/-! Times of fields. A reference time has a year of 16 bits and a forecast is two counts of 32 bits
at most, each of units of up to a day, so that a forecast may end after the last year that dates are
kept for. A scan yields such a field like any other, and only its valid time is missing. -/

namespace GribCatalog

/-! ### Times that are read -/

theorem Identification.civil_of_read {bs : Bytes} {source : Identification}
    (h : read bs = .ok source) :
    source.referenceTime.IsCivil ∧ 0 ≤ source.referenceTime.year ∧
      source.referenceTime.year < 2 ^ 16 := by
  unfold read at h
  split at h
  · cases h
  simp only at h
  split at h
  · cases h
  · next t ht =>
    cases h
    obtain ⟨hcivil, hyear⟩ := Instant.IsCivil.of_ofCivil? ht
    have hword := bs.wordAt_lt 12 2
    simp only at hyear
    exact ⟨hcivil, show 0 ≤ t.year by omega, show t.year < 2 ^ 16 by omega⟩

/-- What both counts give at most, with days for their units. -/
theorem Product.Layout.stop_forecast_le (l : Layout) (bs : Bytes) :
    (l.forecast bs).stop ≤ 2 * ((2 ^ 32 - 1) * 86400) := by
  have hstart := secondsAt_le bs 17
  rw [forecast]
  cases l.rangeUnit? with
  | none =>
    simp only [Forecast.stop]
    omega
  | some i =>
    have hrange := secondsAt_le bs i
    simp only [Forecast.stop]
    omega

theorem Forecast.IsForward.stop_nonneg {forecast : Forecast} (h : forecast.IsForward) :
    0 ≤ forecast.stop := by
  cases forecast with
  | instant offset => exact h.1
  | interval start stop => exact Int.le_trans h.1 h.2.1

namespace Field

/-- A field takes its times from an identification and a product definition that were read. -/
theorem exists_read_of_mem_scan {file : UInt32} {bs : Bytes} {f : Field}
    (h : f ∈ ScanItem.fields (scan file bs)) :
    (∃ bs source, Identification.read bs = .ok source ∧ f.referenceTime = source.referenceTime) ∧
      ∃ bs product, Product.read bs = .ok product ∧ f.forecast = product.forecast := by
  rw [ScanItem.mem_fields, scan, scanFrom_eq_flatMap] at h
  obtain ⟨s, -, h⟩ := List.mem_flatMap.mp h
  rcases Stop.items_cases file s with
    ⟨fault, hitems, -⟩ | ⟨_, source, _, -, -, ⟨bs, hsource⟩, hitems⟩
  · rw [hitems] at h
    simp at h
  · obtain ⟨i, hi, hfield⟩ := List.mem_mapIdx.mp (hitems ▸ h)
    obtain ⟨product, hproduct, rfl⟩ := Except.map_eq_ok_iff.mp hfield
    exact ⟨⟨bs, source, hsource, rfl⟩, _, product, hproduct, rfl⟩

/-! ### Valid times -/

/-- The instant at the end of the forecast period, in whatever year that is. -/
def periodEnd (f : Field) : Instant :=
  { f.referenceTime with seconds := f.referenceTime.seconds + f.forecast.stop }

/-- Forecasts do not run backwards, so that a year may be too late but not too early. -/
theorem validTime?_eq {f : Field} (hyear : Date.firstYear ≤ f.referenceTime.year)
    (hstop : 0 ≤ f.forecast.stop) :
    f.validTime? = if f.periodEnd.year ≤ Date.lastYear then some f.periodEnd else none := by
  have hlater : f.referenceTime.year ≤ f.periodEnd.year := by
    rw [Instant.le_year_iff]
    have hstart := Instant.le_year_iff.mp (Int.le_refl f.referenceTime.year)
    simp only [periodEnd]
    omega
  rw [validTime?, Instant.addSeconds?]
  refine if_congr ?_ rfl rfl
  rw [Instant.isRepresentable_iff]
  exact and_iff_right (Int.le_trans hyear hlater)

/-- Whatever the bytes are: a field that a scan yields has a reference time of the years 0 to 65535
and a forecast that ends at most two spans of 32 bits of days after it, which are fewer seconds than
durations are kept for. The end of that forecast is its valid time unless it is after the last year
that dates are kept for, and then there is none. -/
theorem validTime?_of_mem_scan {file : UInt32} {bs : Bytes} {f : Field}
    (h : f ∈ ScanItem.fields (scan file bs)) :
    (0 ≤ f.referenceTime.year ∧ f.referenceTime.year < 2 ^ 16) ∧
    (0 ≤ f.forecast.stop ∧ f.forecast.stop ≤ 2 * ((2 ^ 32 - 1) * 86400)) ∧
    f.validTime? = if f.periodEnd.year ≤ Date.lastYear then some f.periodEnd else none := by
  obtain ⟨⟨bs, source, hsource, htime⟩, bs', product, hproduct, hforecast⟩ :=
    exists_read_of_mem_scan h
  obtain ⟨-, hera, hyear⟩ := Identification.civil_of_read hsource
  obtain ⟨l, -, -, rfl⟩ := Product.read_eq_ok_iff.mp hproduct
  rw [← htime] at hera hyear
  have hstop : 0 ≤ f.forecast.stop := hforecast ▸ (l.isForward_forecast bs').stop_nonneg
  refine ⟨⟨hera, hyear⟩, ⟨hstop, hforecast ▸ l.stop_forecast_le bs'⟩, ?_⟩
  apply validTime?_eq _ hstop
  exact Int.le_trans (by decide) hera

/-- A forecast of so many days that it is for the last day of all. -/
theorem validTime?_of_mem_scan_last_day :
    let bs := (Message.june 1).take 54 ++ [2, 5, 169, 176, 7] ++ (Message.june 1).drop 59
    ∃ f ∈ ScanItem.fields (scan 0 bs),
      f.periodEnd.year = Date.lastYear ∧ f.validTime? = some f.periodEnd := by
  intro bs
  have hyears : (ScanItem.fields (scan 0 bs)).map (·.periodEnd.year) = [Date.lastYear] := by
    decide +kernel
  obtain ⟨f, hf, hyear⟩ := List.mem_map.mp (hyears ▸ List.mem_singleton_self Date.lastYear)
  obtain ⟨-, -, hvalid⟩ := validTime?_of_mem_scan hf
  exact ⟨f, hf, hyear, hvalid.trans (if_pos (Int.le_of_eq hyear))⟩

/-- One day more, in which the scan finds no fault. -/
theorem validTime?_none_day_after :
    let bs := (Message.june 1).take 54 ++ [2, 5, 169, 176, 8] ++ (Message.june 1).drop 59
    ScanItem.faults (scan 0 bs) = [] ∧
      ∃ f ∈ ScanItem.fields (scan 0 bs),
        f.periodEnd.year = Date.lastYear + 1 ∧ f.validTime? = none := by
  intro bs
  have hends : (ScanItem.fields (scan 0 bs)).map (fun f => (f.periodEnd.year, f.validTime?)) =
      [(Date.lastYear + 1, none)] := by decide +kernel
  obtain ⟨f, hf, hend⟩ := List.mem_map.mp (hends ▸ List.mem_singleton_self (_, none))
  obtain ⟨hyear, hnone⟩ := Prod.mk.inj hend
  exact ⟨by decide +kernel, f, hf, hyear, hnone⟩

end Field

end GribCatalog
