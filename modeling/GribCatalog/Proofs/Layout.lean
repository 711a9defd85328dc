import GribCatalog.Proofs.Encoding
import GribCatalog.Proofs.Guarded
import Mathlib.Algebra.Ring.Int.Defs

/-! Product definitions in any bytes. A template says how many bytes it takes and at which of them
a unit of time stands. A definition is read when its template is one that is read, the bytes reach
its end and its units have a length, and nothing behind that end is looked at. -/

namespace GribCatalog

/-! ### The first bytes of a string -/

namespace Bytes

variable {i n start len : Nat}

theorem byteAt_take (bs : Bytes) (h : i < n) : byteAt (bs.take n) i = bs.byteAt i := by
  rw [byteAt, byteAt, List.getD_eq_getElem?_getD, List.getD_eq_getElem?_getD,
    List.getElem?_take_of_lt h]

theorem slice_take (bs : Bytes) (h : start + len ≤ n) :
    slice (bs.take n) start len = bs.slice start len := by
  rw [slice, slice, List.drop_take, List.take_take, Nat.min_eq_left (by omega)]

theorem wordAt_take (bs : Bytes) (h : start + len ≤ n) :
    wordAt (bs.take n) start len = bs.wordAt start len := by
  rw [wordAt, wordAt, slice_take bs h]

end Bytes

namespace TimeUnit

theorem lookup_of_ofCode {code : UInt8} {unit : TimeUnit} (h : ofCode code = .ok unit) :
    table.lookup code = some unit.seconds := by
  unfold ofCode at h
  split at h <;> cases h
  all_goals
    next hcode =>
      rw [← UInt8.ofNat_toNat (x := code), hcode]
      rfl

theorem exists_ofCode_iff {code : UInt8} :
    (∃ unit, ofCode code = .ok unit) ↔ (table.lookup code).isSome := by
  constructor
  · rintro ⟨unit, h⟩
    rw [lookup_of_ofCode h]
    rfl
  · intro h
    obtain ⟨n, hn⟩ := Option.isSome_iff_exists.mp h
    obtain ⟨unit, hunit, -⟩ := ofCode_of_lookup hn
    exact ⟨unit, hunit⟩

end TimeUnit

/-- Seconds that do not run backwards and that a signed word holds. -/
def Forecast.IsForward : Forecast → Prop
  | instant offset => 0 ≤ offset ∧ offset < 2 ^ 63
  | interval start stop => 0 ≤ start ∧ start ≤ stop ∧ stop < 2 ^ 63

namespace Product

/-! ### Layouts -/

/-- What a template takes of a section: so many bytes, and the byte with the unit of its time range
if it has one. The unit of the forecast is at byte 17 in all of them. -/
structure Layout where
  template : Nat
  length : Nat
  rangeUnit? : Option Nat
  deriving DecidableEq, Repr

/-- The templates that are read. The ensemble of the second and the last takes three bytes. -/
def Layout.all : List Layout :=
  [⟨0, 34, none⟩, ⟨1, 37, none⟩, ⟨8, 58, some 48⟩, ⟨11, 61, some 51⟩]

def secondsAt (bs : Bytes) (unitAt : Nat) : Nat :=
  bs.wordAt (unitAt + 1) 4 * (TimeUnit.table.lookup (bs.byteAt unitAt)).getD 0

namespace Layout

structure Fits (l : Layout) (bs : Bytes) : Prop where
  template : bs.wordAt 7 2 = l.template
  length : l.length ≤ bs.length
  timeUnit : (TimeUnit.table.lookup (bs.byteAt 17)).isSome
  rangeUnit : ∀ i ∈ l.rangeUnit?, (TimeUnit.table.lookup (bs.byteAt i)).isSome

def forecast (l : Layout) (bs : Bytes) : Forecast :=
  let start := secondsAt bs 17
  match l.rangeUnit? with
  | none => .instant start
  | some i => .interval start (start + secondsAt bs i : Nat)

variable {l : Layout}

theorem templateLength?_eq (h : l ∈ all) : templateLength? l.template = some l.length := by
  revert l
  decide

theorem rangeUnit?_eq (h : l ∈ all) :
    l.rangeUnit? = (rangeStart? l.template).map (· + 2) := by
  revert l
  decide

theorem least_length (h : l ∈ all) : 34 ≤ l.length := by
  revert l
  decide

theorem rangeUnit_le (h : l ∈ all) : ∀ i ∈ l.rangeUnit?, i + 5 ≤ l.length := by
  revert l
  decide

theorem ensemble_le (h : l ∈ all) : l.template = 1 ∨ l.template = 11 → 37 ≤ l.length := by
  revert l
  decide

theorem isSome_rangeUnit?_iff (h : l ∈ all) :
    l.rangeUnit?.isSome ↔ l.template = 8 ∨ l.template = 11 := by
  revert l
  decide

theorem exists_of_templateLength? {template needed : Nat}
    (h : templateLength? template = some needed) :
    ∃ l ∈ all, l.template = template ∧ l.length = needed := by
  unfold templateLength? at h
  split at h <;> cases h <;> decide

end Layout

/-! ### Forecasts -/

variable {bs : Bytes} {l : Layout}

theorem secondsAt_le (bs : Bytes) (unitAt : Nat) :
    secondsAt bs unitAt ≤ (2 ^ 32 - 1) * 86400 := by
  have hcount := bs.wordAt_lt (unitAt + 1) 4
  have hunit : (TimeUnit.table.lookup (bs.byteAt unitAt)).getD 0 ≤ 86400 := by
    cases hlookup : TimeUnit.table.lookup (bs.byteAt unitAt) with
    | none => decide
    | some n =>
      obtain ⟨unit, -, rfl⟩ := TimeUnit.ofCode_of_lookup hlookup
      cases unit <;> decide
  exact Nat.mul_le_mul (by omega) hunit

theorem duration_eq_ok_iff {unitAt n : Nat} :
    duration bs unitAt (unitAt + 1) = .ok n ↔
      (TimeUnit.table.lookup (bs.byteAt unitAt)).isSome ∧ secondsAt bs unitAt = n := by
  rw [duration, secondsAt, ← TimeUnit.exists_ofCode_iff]
  cases hcode : TimeUnit.ofCode (bs.byteAt unitAt) with
  | error fault => simp [Except.map]
  | ok unit => simp [Except.map, TimeUnit.lookup_of_ofCode hcode]

theorem readForecast_eq_ok_iff (hl : l ∈ Layout.all) {forecast : Forecast} :
    readForecast l.template bs = .ok forecast ↔
      (TimeUnit.table.lookup (bs.byteAt 17)).isSome ∧
        (∀ i ∈ l.rangeUnit?, (TimeUnit.table.lookup (bs.byteAt i)).isSome) ∧
        l.forecast bs = forecast := by
  rw [readForecast, Layout.forecast, Layout.rangeUnit?_eq hl]
  cases hoffset : duration bs 17 18 with
  | error fault =>
    have hunknown : ¬ (TimeUnit.table.lookup (bs.byteAt 17)).isSome := fun hknown => by
      rw [duration_eq_ok_iff.mpr ⟨hknown, rfl⟩] at hoffset
      cases hoffset
    simp [hunknown]
  | ok offset =>
    obtain ⟨hknown, hseconds⟩ := duration_eq_ok_iff.mp hoffset
    cases rangeStart? l.template with
    | none => simp [hknown, hseconds]
    | some start =>
      have hrange {n : Nat} : duration bs (start + 2) (start + 3) = .ok n ↔ _ :=
        duration_eq_ok_iff
      simp [Except.map_eq_ok_iff, hrange, hknown, hseconds]

theorem Layout.isForward_forecast (l : Layout) (bs : Bytes) : (l.forecast bs).IsForward := by
  have hstart := secondsAt_le bs 17
  rw [forecast]
  cases l.rangeUnit? with
  | none => exact ⟨Int.natCast_nonneg _, by omega⟩
  | some i =>
    have hrange := secondsAt_le bs i
    exact ⟨Int.natCast_nonneg _, by omega, by omega⟩

theorem Layout.isInterval_forecast (l : Layout) (bs : Bytes) :
    (l.forecast bs).isInterval = l.rangeUnit?.isSome := by
  rw [forecast]
  cases l.rangeUnit? <;> rfl

theorem isSome_readEnsemble?_iff {template : Nat} :
    (readEnsemble? template bs).isSome ↔ template = 1 ∨ template = 11 := by
  rw [readEnsemble?]
  split <;> simp_all

/-! ### Definitions -/

def Layout.product (l : Layout) (bs : Bytes) : Product where
  template := l.template
  category := bs.byteAt 9
  number := bs.byteAt 10
  forecast := l.forecast bs
  level := Surface.decode? (bs.byteAt 22) (bs.byteAt 23) (bs.slice 24 4)
  ensemble := readEnsemble? l.template bs

theorem read_of_fits (hl : l ∈ Layout.all) (h : l.Fits bs) : read bs = .ok (l.product bs) := by
  have hleast := Layout.least_length hl
  have hlength := h.length
  have hforecast : readForecast l.template bs = .ok (l.forecast bs) :=
    (readForecast_eq_ok_iff hl).mpr ⟨h.timeUnit, h.rangeUnit, rfl⟩
  simp only [read, h.template, Layout.templateLength?_eq hl, hforecast]
  rw [if_neg (by omega), if_neg (by omega)]
  rfl

/-- What is read is what stands in the bytes by a layout that they have. -/
theorem read_eq_ok_iff {product : Product} :
    read bs = .ok product ↔ ∃ l ∈ Layout.all, l.Fits bs ∧ l.product bs = product := by
  constructor
  · intro h
    -- the checks in their order: the template's bytes, the template, its length, its units
    unfold read at h
    split at h
    · cases h
    dsimp only at h
    split at h
    · cases h
    next needed hneeded =>
    obtain ⟨l, hl, htemplate, rfl⟩ := Layout.exists_of_templateLength? hneeded
    split at h
    · cases h
    next hlong =>
    obtain ⟨forecast, hforecast, rfl⟩ := Except.map_eq_ok_iff.mp h
    rw [← htemplate, readForecast_eq_ok_iff hl] at hforecast
    obtain ⟨htime, hrange, rfl⟩ := hforecast
    refine ⟨l, hl, ⟨htemplate.symm, Nat.le_of_not_lt hlong, htime, hrange⟩, ?_⟩
    rw [Layout.product, htemplate]
  · rintro ⟨l, hl, hfits, rfl⟩
    exact read_of_fits hl hfits

/-! ### What is looked at -/

theorem secondsAt_take {n unitAt : Nat} (h : unitAt + 5 ≤ n) :
    secondsAt (bs.take n) unitAt = secondsAt bs unitAt := by
  rw [secondsAt, secondsAt, Bytes.byteAt_take bs (by omega), Bytes.wordAt_take bs (by omega)]

namespace Layout

theorem fits_take (hl : l ∈ all) : l.Fits (bs.take l.length) ↔ l.Fits bs := by
  have hleast := least_length hl
  have htemplate : Bytes.wordAt (bs.take l.length) 7 2 = bs.wordAt 7 2 :=
    Bytes.wordAt_take bs (by omega)
  have htime : Bytes.byteAt (bs.take l.length) 17 = bs.byteAt 17 := Bytes.byteAt_take bs (by omega)
  have hrange {i : Nat} (hi : i ∈ l.rangeUnit?) :
      Bytes.byteAt (bs.take l.length) i = bs.byteAt i := by
    have := rangeUnit_le hl i hi
    exact Bytes.byteAt_take bs (by omega)
  constructor
  · intro h
    have hlength := h.length
    rw [List.length_take] at hlength
    exact ⟨htemplate ▸ h.template, by omega, htime ▸ h.timeUnit,
      fun i hi => hrange hi ▸ h.rangeUnit i hi⟩
  · intro h
    have hlength := h.length
    refine ⟨htemplate.trans h.template, ?_, htime.symm ▸ h.timeUnit,
      fun i hi => (hrange hi).symm ▸ h.rangeUnit i hi⟩
    rw [List.length_take]
    omega

theorem forecast_take (hl : l ∈ all) : l.forecast (bs.take l.length) = l.forecast bs := by
  have hleast := least_length hl
  rw [forecast, forecast, secondsAt_take (by omega)]
  cases hrange : l.rangeUnit? with
  | none => rfl
  | some i => simp only [secondsAt_take (rangeUnit_le hl i hrange)]

theorem readEnsemble?_take (hl : l ∈ all) :
    readEnsemble? l.template (bs.take l.length) = readEnsemble? l.template bs := by
  rw [readEnsemble?, readEnsemble?]
  split
  · next hmember =>
    have hlong := ensemble_le hl hmember
    rw [Bytes.byteAt_take bs (by omega), Bytes.byteAt_take bs (by omega),
      Bytes.byteAt_take bs (by omega)]
  · rfl

theorem product_take (hl : l ∈ all) : l.product (bs.take l.length) = l.product bs := by
  have hleast := least_length hl
  rw [product, product, forecast_take hl, readEnsemble?_take hl, Bytes.byteAt_take bs (by omega),
    Bytes.byteAt_take bs (by omega), Bytes.byteAt_take bs (by omega),
    Bytes.byteAt_take bs (by omega), Bytes.slice_take bs (by omega)]

end Layout

/-- Nothing behind the bytes of its template has a part in a definition. -/
theorem read_congr (hl : l ∈ Layout.all) (h : l.Fits bs) {bs' : Bytes}
    (same : bs'.take l.length = bs.take l.length) : read bs' = .ok (l.product bs) := by
  -- both have what their common first bytes have
  have hfits : l.Fits bs' := by
    rw [← Layout.fits_take hl, same, Layout.fits_take hl]
    exact h
  rw [read_of_fits hl hfits, ← Layout.product_take hl, same, Layout.product_take hl]

/-- Whatever the bytes of a section are, no access leaves them and no sum leaves a signed word. A
definition is read exactly when the bytes have one of the layouts, and then it is what stands there,
whatever follows: its seconds do not run backwards, and its template says whether it has an ensemble
and whether it has a period. -/
theorem read_exact (bs : Bytes) :
    Guarded.product bs = Guarded.ofResult (read bs) ∧
    ((∃ product, read bs = .ok product) ↔ 9 ≤ bs.length ∧ ∃ l ∈ Layout.all, l.Fits bs) ∧
    ∀ product, read bs = .ok product →
      (∃ l ∈ Layout.all, l.Fits bs ∧ product = l.product bs ∧
        ∀ bs' : Bytes, bs'.take l.length = bs.take l.length → read bs' = .ok product) ∧
      product.forecast.IsForward ∧
      (product.ensemble.isSome ↔ product.template = 1 ∨ product.template = 11) ∧
      (product.forecast.isInterval ↔ product.template = 8 ∨ product.template = 11) := by
  refine ⟨Guarded.product_eq, ⟨?_, ?_⟩, fun product h => ?_⟩
  · rintro ⟨product, h⟩
    obtain ⟨l, hl, hfits, -⟩ := read_eq_ok_iff.mp h
    have hleast := Layout.least_length hl
    exact ⟨Nat.le_trans (by omega) hfits.length, l, hl, hfits⟩
  · rintro ⟨-, l, hl, hfits⟩
    exact ⟨l.product bs, read_of_fits hl hfits⟩
  · obtain ⟨l, hl, hfits, rfl⟩ := read_eq_ok_iff.mp h
    refine ⟨⟨l, hl, hfits, rfl, fun bs' => read_congr hl hfits⟩, l.isForward_forecast bs,
      isSome_readEnsemble?_iff, ?_⟩
    rw [Layout.product, l.isInterval_forecast]
    exact Layout.isSome_rangeUnit?_iff hl

/-- Six hours of rain in one member of an ensemble, after six hours. The two bytes that follow have
no part in it. -/
theorem read_exact_rain :
    let rain : FieldSpec :=
      { category := 1, number := 8, forecastTime := 6, levelType := 1, levelValue := 0
        ensemble := some (3, 7, 30), interval := some (11, 1) }
    let bs := rain.productBytes ++ [255, 255]
    ∃ product, read bs = .ok product ∧ read rain.productBytes = .ok product ∧
      product.forecast = .interval 21600 43200 ∧ product.ensemble.isSome := by
  intro rain bs
  obtain ⟨-, hread, hexact⟩ := read_exact bs
  have hfits : Layout.Fits ⟨11, 61, some 51⟩ bs := by
    refine ⟨by decide, by decide, by decide, ?_⟩
    rintro i ⟨⟩
    decide
  obtain ⟨product, h⟩ := hread.mpr ⟨by decide, _, by decide, hfits⟩
  obtain ⟨⟨l, hl, hl', hproduct, hprefix⟩, -⟩ := hexact product h
  have hlayout : ∀ l ∈ Layout.all, l.template = 11 → l = ⟨11, 61, some 51⟩ := by decide
  obtain rfl := hlayout l hl (hl'.template.symm.trans hfits.template)
  exact ⟨product, h, hprefix _ (by decide), hproduct ▸ by decide, hproduct ▸ by decide⟩

end Product

end GribCatalog
