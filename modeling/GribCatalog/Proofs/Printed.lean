import GribCatalog.Proofs.History
import GribCatalog.Proofs.Invariant
import GribCatalog.Proofs.Lookup
import GribCatalog.Proofs.ValidTime
import GribCatalog.Proofs.ValueText

/-! Values that are printed and asked for. What a catalog prints for the values of a record is
read as these values, except for the reference times of years after 9999, so that a record is found
by it where no two axes have one name. -/

namespace GribCatalog

/-! ### Texts of values -/

namespace AxisValue

inductive OfField : AxisKind → AxisValue → Prop
  | offset (n : Int64) : OfField .time (offset n)
  | period {p : Period} : 0 ≤ p.start.toInt → OfField .timeInterval (period p)
  | runtime {t : Instant} : t.IsCivil → 0 ≤ t.year → OfField .runtime (runtime t)
  | level (l : Level) : OfField .vertical (level l)
  | member (m : Member) : OfField .ensemble (member m)

/-- Whether the text of a value has a form that queries have. -/
def IsAskable : AxisValue → Prop
  | runtime t => t.year ≤ 9999
  | _ => True

variable {kind : AxisKind} {v : AxisValue}

theorem OfField.ofKind (hv : v.OfField kind) : v.OfKind kind := by
  cases hv with
  | offset n => exact .offset n
  | period _ => exact .period _
  | runtime ht _ =>
    have hnanos := ht.nanos
    exact .runtime ht.representable (by omega)
  | level l => exact .level l
  | member m => exact .member m

theorem OfField.ofText?_display (hv : v.OfField kind) :
    (v.IsAskable → ofText? kind v.display = some v) ∧
      ((ofText? kind v.display).isSome → v.IsAskable) := by
  rw [hv.ofKind.ofText?_display]
  cases hv with
  | period hstart => exact ⟨fun _ => if_pos hstart, fun _ => trivial⟩
  | @runtime t ht hyear =>
    rw [reread?, ht.settled_eq]
    split
    · next h => exact ⟨fun _ => rfl, fun _ => h.2⟩
    · next h =>
      exact ⟨fun hle => absurd ⟨hyear, hle⟩ h, fun hsome => absurd hsome Bool.false_ne_true⟩
  | offset n => exact ⟨fun _ => rfl, fun _ => trivial⟩
  | level l => exact ⟨fun _ => rfl, fun _ => trivial⟩
  | member m => exact ⟨fun _ => rfl, fun _ => trivial⟩

end AxisValue

/-! ### Values of fields -/

structure Field.IsRead (f : Field) : Prop where
  civil : f.referenceTime.IsCivil
  era : 0 ≤ f.referenceTime.year
  start : ∀ start stop, f.forecast = .interval start stop → 0 ≤ start ∧ start < 2 ^ 63

theorem Field.isRead_of_mem_scan {file : UInt32} {bs : Bytes} {f : Field}
    (h : f ∈ ScanItem.fields (scan file bs)) : f.IsRead := by
  obtain ⟨⟨_, source, hsource, htime⟩, bs', product, hproduct, hforecast⟩ :=
    exists_read_of_mem_scan h
  obtain ⟨hcivil, hera, -⟩ := Identification.civil_of_read hsource
  obtain ⟨l, -, -, rfl⟩ := Product.read_eq_ok_iff.mp hproduct
  refine ⟨htime ▸ hcivil, htime ▸ hera, fun start stop hinterval => ?_⟩
  have hforward := l.isForward_forecast bs'
  rw [show l.forecast bs' = .interval start stop from hforecast.symm.trans hinterval] at hforward
  obtain ⟨hstart, hle, hstop⟩ := hforward
  exact ⟨hstart, Int.lt_of_le_of_lt hle hstop⟩

theorem TimeUnit.wholeUnits_nonneg {unit : TimeUnit} {seconds : Int} {n : Int64}
    (h : unit.wholeUnits seconds = .ok n) (hlow : 0 ≤ seconds) (hhigh : seconds < 2 ^ 63) :
    0 ≤ n.toInt := by
  unfold wholeUnits at h
  split at h
  · cases h
    have hunit : 0 < (unit.seconds : Int) := by cases unit <;> decide
    have hle := Int.ediv_le_self unit.seconds hlow
    have hnonneg := Int.ediv_nonneg hlow (Int.le_of_lt hunit)
    rw [Int64.toInt_ofInt_of_le (by omega) (by omega)]
    exact hnonneg
  · cases h

theorem FieldDimension.ofField_of_extract {d : FieldDimension} {f : Field} (hf : f.IsRead)
    {v : AxisValue} (hv : d.extract f = .ok v) : v.OfField d.kind := by
  cases d with
  | time unit =>
    simp only [extract] at hv
    split at hv
    · obtain ⟨n, -, rfl⟩ := Except.map_eq_ok_iff.mp hv
      exact .offset n
    · cases hv
  | interval unit =>
    simp only [extract] at hv
    split at hv
    · next start stop hforecast =>
      obtain ⟨first, hfirst, hv⟩ := Except.bind_eq_ok_iff.mp hv
      obtain ⟨last, -, hv⟩ := Except.bind_eq_ok_iff.mp hv
      cases hv
      obtain ⟨hlow, hhigh⟩ := hf.start _ _ hforecast
      exact .period (TimeUnit.wholeUnits_nonneg hfirst hlow hhigh)
    · cases hv
  | runtime =>
    cases hv
    exact .runtime hf.civil hf.era
  | vertical expected descending =>
    simp only [extract] at hv
    split at hv
    · unfold surfaceValue at hv
      split at hv
      · cases hv
      · split at hv
        · next hsurface =>
          cases hv
          obtain ⟨l, -, rfl⟩ := Option.map_eq_some_iff.mp hsurface
          exact .level l
        · cases hv
    · cases hv
  | ensemble =>
    simp only [extract] at hv
    split at hv
    · cases hv
      exact .member _
    · cases hv

/-! ### Records of catalogs -/

theorem FieldDimension.isWord_axisName (d : FieldDimension) : Query.IsWord d.axisName := by
  have hall : ∀ name ∈ ["time", "time_interval", "runtime", "vertical", "ensemble"],
      (name.toList.all fun c => !Text.isBlank c && c ≠ '=') = true := by decide
  have hname := hall d.axisName (by cases d <;> simp [axisName])
  intro c hc
  simpa using List.all_eq_true.mp hname c hc

/-- Axes have the names and kinds of the dimensions that a space is built on. -/
theorem Space.axes_of_build {ρ : Type} [Located ρ] {dimensions : List (Dimension ρ)}
    {records : List ρ} {options : BuildOptions} {s : Space} {report : Report}
    (h : build dimensions records options = .ok (s, report)) :
    s.axes.map (fun a => (a.name, a.kind)) = dimensions.map fun d => (d.name, d.kind) := by
  obtain ⟨-, -, h⟩ := Except.bind_eq_ok_iff.mp h
  obtain ⟨survey, hsurvey, h⟩ := Except.bind_eq_ok_iff.mp h
  have hdimensions := dimensions_of_start hsurvey
  obtain rfl := congrArg Prod.fst (Except.ok.inj h)
  simp [Placement.publish, assemble, Survey.finish, Survey.gatherings_accumulateBatch,
    Gathering.axis, ← hdimensions, Function.comp_def]

namespace Document

variable {now : Instant} {fs : FileSystem} {settings : Settings} {paths : List String}
  {d : Document} {s : Space} {e : Entry}

theorem space_of_build (built : build now fs settings paths = .ok (d, s)) :
    ∃ (dimensions : List (Dimension Field)) (fields : List Field) (report : Report),
      (∀ dimension ∈ dimensions, ∃ named : FieldDimension, named.dimension = dimension) ∧
      (∀ f ∈ fields, f.IsRead) ∧
      Space.build dimensions fields settings.index = .ok (s, report) := by
  obtain ⟨dimensions, hdimensions, built⟩ := Except.bind_eq_ok_iff.mp built
  obtain ⟨files, -, built⟩ := Except.bind_eq_ok_iff.mp built
  obtain ⟨harvest, hharvest, built⟩ := Except.bind_eq_ok_iff.mp built
  obtain ⟨⟨space, report⟩, hspace, built⟩ := Except.bind_eq_ok_iff.mp built
  cases built
  rw [Except.mapError_eq_ok_iff] at hharvest hspace
  obtain ⟨-, -, hnames⟩ := Except.bind_eq_ok_iff.mp hdimensions
  obtain ⟨parameter, -, hharvest⟩ := Except.bind_eq_ok_iff.mp hharvest
  rw [Except.mapError_eq_ok_iff] at hnames
  refine ⟨dimensions, harvest.fields, report, fun dimension hd => ?_, fun f hf => ?_, hspace⟩
  · obtain ⟨name, -, hname⟩ := Except.mem_of_mapM_eq_ok hnames hd
    obtain ⟨named, -, hnamed⟩ := Except.map_eq_ok_iff.mp hname
    exact ⟨named, hnamed⟩
  · obtain ⟨_, _, _, -, -, hscan⟩ := Settings.mem_harvestFrom hharvest hf
    exact Field.isRead_of_mem_scan hscan

/-- The values of an entry are those of a field. -/
theorem ofField_of_build (built : build now fs settings paths = .ok (d, s)) (he : e ∈ s.entries)
    {values : List AxisValue} (length : values.length = s.rank)
    (hindices : (values.zip s.axes).mapM (fun (v, a) => a.index? v) = some e.indices) :
    ∀ q ∈ s.axes.zip values, Query.IsWord q.1.name ∧ q.2.OfField q.1.kind := by
  obtain ⟨dimensions, fields, report, hnamed, hread, hspace⟩ := space_of_build built
  obtain ⟨arity, -, hentries⟩ := Space.of_build hspace
  obtain ⟨f, hf, -, hfound⟩ := hentries e he
  have hvalues := Resolution.values_of_found arity hfound length hindices
  have haxes := Space.axes_of_build hspace
  rintro ⟨a, v⟩ hq
  obtain ⟨i, hi⟩ := List.getElem?_of_mem hq
  obtain ⟨ha, hv⟩ := List.getElem?_zip_eq_some.mp hi
  have ha' := congrArg (·[i]?) haxes
  have hv' := congrArg (·[i]?) hvalues
  simp only [List.getElem?_map] at ha' hv'
  rw [ha] at ha'
  rw [hv] at hv'
  obtain ⟨dimension, hdimension, hsame⟩ := Option.map_eq_some_iff.mp ha'.symm
  obtain ⟨named, rfl⟩ := hnamed dimension (List.mem_of_getElem? hdimension)
  rw [hdimension] at hv'
  obtain ⟨hname, hkind⟩ := Prod.mk.inj hsame
  refine ⟨hname ▸ named.isWord_axisName, ?_⟩
  have hof := FieldDimension.ofField_of_extract (hread f hf) (Option.some.inj hv')
  exact hkind ▸ hof

/-- A record is found by what is printed for its values exactly when no two axes have one name and
its reference time, if it is on an axis, is of a year before 10000. -/
theorem lookup_printed_iff (built : build now fs settings paths = .ok (d, s))
    (he : e ∈ s.entries) :
    ∃ values, s.valuesAt? e.indices = some values ∧
      ∀ pairs : List String, pairs.Perm (List.zipWith Query.pair s.axes values) →
        ((∃ answer, d.lookup s pairs = .ok answer ∧ d.hit e ∈ answer.hits) ↔
          (s.axes.map Axis.name).Nodup ∧ ∀ v ∈ values, v.IsAskable) := by
  obtain ⟨_, _, _, -, -, hspace⟩ := space_of_build built
  have hsound := Space.sound_of_build hspace
  have inRange := hsound.inRange e he
  have hrank : e.indices.length = s.rank := inRange.length_eq.trans (List.length_map _)
  obtain ⟨values, hvalues, hlength, hindices⟩ := Space.exists_values hsound.nodup inRange
  refine ⟨values, (if_pos hrank).trans hvalues, fun pairs hpairs => ?_⟩
  have hfield := ofField_of_build built he hlength hindices
  have words (a : Axis) (ha : a ∈ s.axes) : Query.IsWord a.name := by
    rw [← List.map_fst_zip hlength.ge] at ha
    obtain ⟨q, hq, rfl⟩ := List.mem_map.mp ha
    exact (hfield q hq).1
  constructor
  · rintro ⟨answer, hanswer, -⟩
    obtain ⟨found, hfound, -⟩ := Except.bind_eq_ok_iff.mp hanswer
    obtain ⟨nodup, hread⟩ := Query.of_values_printed words hlength hpairs hfound
    refine ⟨nodup, fun v hv => ?_⟩
    rw [← List.map_snd_zip hlength.le] at hv
    obtain ⟨q, hq, rfl⟩ := List.mem_map.mp hv
    exact (hfield q hq).2.ofText?_display.2 (hread q hq)
  · rintro ⟨nodup, askable⟩
    have hquery := Query.values_printed words hlength hpairs nodup fun q hq =>
      (hfield q hq).2.ofText?_display.1 (askable q.2 (List.of_mem_zip hq).2)
    have hfound : s.indicesOf? values = some e.indices := (if_pos hlength).trans hindices
    have hmem : e ∈ s.entriesAt e.indices := List.mem_filter.mpr ⟨he, decide_eq_true rfl⟩
    refine ⟨⟨some e.indices, (s.entriesAt e.indices).map d.hit, (s.entryAt? e.indices).map d.hit⟩,
      ?_, List.mem_map_of_mem hmem⟩
    rw [lookup, hquery]
    simp only [bind, Except.bind, hfound]

/-- The forecast for noon of one day, asked for by its values in the other order. -/
theorem lookup_printed_june :
    let fs : FileSystem := { root := .directory [("a", .file (some (Message.june 1)))] }
    let settings : Settings := { dimensions := ["time", "runtime"] }
    let values := [AxisValue.offset 12, .runtime ⟨1685577600, 0⟩]
    ∃ d s e, build ⟨0, 0⟩ fs settings ["a"] = .ok (d, s) ∧ e ∈ s.entries ∧
      s.valuesAt? e.indices = some values ∧
      ∃ answer, d.lookup s ["runtime=2023-06-01T00:00:00+00:00", "time=12"] = .ok answer ∧
        d.hit e ∈ answer.hits := by
  intro fs settings values
  let e : Entry := ⟨0, ⟨0, 0, 75, 0⟩, [0, 0]⟩
  have found : (build ⟨0, 0⟩ fs settings ["a"]).toOption.map (fun result =>
      (result.2.axes.map Axis.name, result.2.entries, result.2.valuesAt? e.indices,
        List.zipWith Query.pair result.2.axes values)) =
      some (["time", "runtime"], [e], some values,
        ["time=12", "runtime=2023-06-01T00:00:00+00:00"]) := by decide +kernel
  cases built : build ⟨0, 0⟩ fs settings ["a"] with
  | error fault =>
    rw [built] at found
    cases found
  | ok result =>
    obtain ⟨d, s⟩ := result
    rw [built] at found
    obtain ⟨names, found⟩ := Prod.mk.inj (Option.some.inj found)
    obtain ⟨entries, found⟩ := Prod.mk.inj found
    obtain ⟨hvalues, printed⟩ := Prod.mk.inj found
    have he : e ∈ s.entries := entries ▸ List.mem_singleton_self e
    obtain ⟨values', hvalues', answers⟩ := lookup_printed_iff built he
    obtain rfl : values = values' := Option.some.inj (hvalues.symm.trans hvalues')
    refine ⟨d, s, e, rfl, he, hvalues, (answers _ ?_).mpr ⟨?_, ?_⟩⟩
    · rw [printed]
      exact .swap ..
    · rw [names]
      decide
    · exact List.forall_mem_cons.mpr ⟨trivial, List.forall_mem_singleton.mpr
        (show (Instant.mk 1685577600 0).year ≤ 9999 by decide)⟩

/-- The forecast under two units of time, which are two axes of one name, and a forecast that was
made in the year 12345. -/
theorem lookup_printed_refused :
    let distant := ((Message.june 1).set 28 48).set 29 57
    let fs : FileSystem :=
      { root := .directory [("a", .file (some (Message.june 1))), ("b", .file (some distant))] }
    let refused (dimensions paths pairs : List String) (fault : QueryFault) : Prop :=
      ∃ d s e values, build ⟨0, 0⟩ fs { dimensions } paths = .ok (d, s) ∧ e ∈ s.entries ∧
        s.valuesAt? e.indices = some values ∧ pairs = List.zipWith Query.pair s.axes values ∧
        d.lookup s pairs = .error fault
    refused ["time", "time:minute"] ["a"] ["time=12", "time=720"] (.repeated "time") ∧
      refused ["runtime"] ["b"] ["runtime=+12345-06-01T00:00:00+00:00"]
        (.invalidValue .runtime "+12345-06-01T00:00:00+00:00") := by
  intro distant fs refused
  have of_eval {dimensions paths pairs : List String} {fault : QueryFault} (e : Entry)
      (values : List AxisValue)
      (h : (build ⟨0, 0⟩ fs { dimensions } paths).toOption.map (fun result =>
        (result.2.entries, result.2.valuesAt? e.indices,
          List.zipWith Query.pair result.2.axes values, result.1.lookup result.2 pairs)) =
        some ([e], some values, pairs, .error fault)) : refused dimensions paths pairs fault := by
    cases built : build ⟨0, 0⟩ fs { dimensions } paths with
    | error fault =>
      rw [built] at h
      cases h
    | ok result =>
      obtain ⟨d, s⟩ := result
      rw [built] at h
      obtain ⟨entries, h⟩ := Prod.mk.inj (Option.some.inj h)
      obtain ⟨hvalues, h⟩ := Prod.mk.inj h
      obtain ⟨printed, answer⟩ := Prod.mk.inj h
      exact ⟨d, s, e, values, built, entries ▸ List.mem_singleton_self e, hvalues, printed.symm,
        answer⟩
  constructor
  · exact of_eval ⟨0, ⟨0, 0, 75, 0⟩, [0, 0]⟩ [.offset 12, .offset 720] (by decide +kernel)
  · exact of_eval ⟨0, ⟨0, 0, 75, 0⟩, [0]⟩ [.runtime ⟨327416428800, 0⟩] (by decide +kernel)

end Document

end GribCatalog
