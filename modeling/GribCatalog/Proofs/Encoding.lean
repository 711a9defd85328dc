import GribCatalog.Grib.Encoding
import GribCatalog.Proofs.Calendar
import GribCatalog.Proofs.Scaling
import GribCatalog.Proofs.Scan
import Mathlib.Algebra.Ring.Nat

/-! Scanning reads what was written. The sections of a message are walked at the
lengths written for them, the product definition of a field is read back value by
value, and so a stream of messages yields one field for each that was specified. -/

namespace GribCatalog

/-! ### Words and lengths -/

theorem Bytes.wordAt_eq {bs : Bytes} {start width n : Nat}
    (h : bs.slice start width = ofWord width n) (fits : n < Nat.pow 256 width) :
    bs.wordAt start width = n := by
  rw [wordAt, h, word_ofWord, Nat.mod_eq_of_lt fits]

theorem Bytes.length_flatMap_le {α : Type} {f : α → Bytes} {k : Nat} {l : List α}
    (h : ∀ a ∈ l, (f a).length ≤ k) : (l.flatMap f).length ≤ k * l.length := by
  induction l with
  | nil => simp
  | cons a l ih =>
    rw [List.forall_mem_cons] at h
    have := ih h.2
    simp only [List.flatMap_cons, List.length_append, List.length_cons, Nat.mul_succ]
    omega

theorem length_encodeSection (number : UInt8) (contents : Bytes) :
    (encodeSection number contents).length = contents.length + 5 := by
  simp only [encodeSection, List.length_append, Bytes.length_ofWord, List.length_cons]
  omega

theorem signMagnitude_encode {n : Int32} (h : n ≠ Int32.minValue) :
    signMagnitude (encodeSignMagnitude n) = n.toInt := by
  have lower := n.le_toInt
  have upper := n.toInt_lt
  have least : n.toInt ≠ -2147483648 := fun he => h (Int32.toInt_inj.mp he)
  have four : (encodeSignMagnitude n).length = 4 := Bytes.length_ofWord _ _
  rw [signMagnitude, if_neg (by simp [four])]
  simp only [encodeSignMagnitude, Bytes.word_ofWord, Nat.pow_eq]
  split <;> omega

theorem signMagnitudeOctet_encode {n : Int8} (h : n ≠ Int8.minValue) :
    signMagnitudeOctet (encodeSignMagnitudeOctet n) = n.toInt := by
  have lower := n.le_toInt
  have upper := n.toInt_lt
  have least : n.toInt ≠ -128 := fun he => h (Int8.toInt_inj.mp he)
  simp only [signMagnitudeOctet, encodeSignMagnitudeOctet, UInt8.toNat_ofNat', Nat.pow_eq]
  split <;> omega

/-! ### Product definitions -/

/-- The units of code table 4.4 that have a fixed length, with their seconds. -/
def TimeUnit.table : List (UInt8 × Nat) :=
  [(0, 60), (1, 3600), (2, 86400), (10, 10800), (11, 21600), (12, 43200), (13, 1)]

theorem TimeUnit.ofCode_of_lookup {code : UInt8} {n : Nat} (h : table.lookup code = some n) :
    ∃ unit, ofCode code = .ok unit ∧ unit.seconds = n := by
  simp only [table, List.lookup_cons, List.lookup_nil] at h
  repeat' split at h
  all_goals cases h
  all_goals
    next hcode =>
      obtain rfl := eq_of_beq hcode
      exact ⟨_, rfl, rfl⟩

namespace FieldSpec

def span (unit : UInt8) (count : UInt32) : Nat :=
  count.toNat * (TimeUnit.table.lookup unit).getD 0

/-- A specification that a message can hold: its units have a length, its level is in the range of
the words with a sign, and it is not the level whose words say that there is none. -/
structure Valid (f : FieldSpec) : Prop where
  timeUnit : (TimeUnit.table.lookup f.timeUnit).isSome
  rangeUnit : ∀ range ∈ f.interval, (TimeUnit.table.lookup range.1).isSome
  levelValue : f.levelValue ≠ Int32.minValue
  levelScale : f.levelScale ≠ Int8.minValue
  present : ¬ (f.levelScale = -127 ∧ f.levelValue = -2147483647)

def forecast (f : FieldSpec) : Forecast :=
  let start := span f.timeUnit f.forecastTime
  match f.interval with
  | none => .instant start
  | some (unit, length) => .interval start (start + span unit length : Nat)

/-- Type 255 is on no level, and any other type is on one at the scaled value. -/
def HasLevel (f : FieldSpec) : Option Surface → Prop
  | none => f.levelType = 255
  | some surface => f.levelType ≠ 255 ∧ surface.kind = f.levelType ∧
      Surface.IsScaled f.levelScale.toInt f.levelValue.toInt surface.value

def member (f : FieldSpec) : Option EnsembleForecast :=
  f.ensemble.map fun (kind, perturbation, size) => ⟨kind, perturbation, size⟩

def product (f : FieldSpec) (level : Option Surface) : Product where
  template := f.template
  category := f.category
  number := f.number
  forecast := f.forecast
  level
  ensemble := f.member

variable {f : FieldSpec}

theorem HasLevel.unique {x y : Option Surface} (hx : f.HasLevel x) (hy : f.HasLevel y) : x = y := by
  match x, y, hx, hy with
  | none, none, _, _ => rfl
  | none, some _, hx, hy => exact absurd hx hy.1
  | some _, none, hx, hy => exact absurd hy hx.1
  | some ⟨_, _⟩, some ⟨_, _⟩, ⟨_, hkind, hvalue⟩, ⟨_, hkind', hvalue'⟩ =>
    rw [Option.some.injEq, Surface.mk.injEq]
    exact ⟨hkind.trans hkind'.symm, hvalue.unique hvalue'⟩

theorem templateLength?_eq (f : FieldSpec) :
    Product.templateLength? f.template = some f.productBytes.length := by
  obtain ⟨_, _, _, _, _, _, _, ensemble, interval⟩ := f
  cases ensemble <;> cases interval <;>
    simp [productBytes, encodeSection, encodeSignMagnitude, ensembleBytes, intervalBytes, template,
      Product.templateLength?]

theorem length_productBytes (f : FieldSpec) :
    34 ≤ f.productBytes.length ∧ f.productBytes.length ≤ 61 := by
  have h := templateLength?_eq f
  unfold Product.templateLength? at h
  split at h <;> simp only [Option.some.injEq, reduceCtorEq] at h <;> omega

theorem length_bytes_le (f : FieldSpec) : f.bytes.length ≤ 93 := by
  have := f.length_productBytes
  simp only [bytes, dataBytes, List.length_append, length_encodeSection, Bytes.length_ofWord,
    List.length_cons, List.length_nil]
  omega

theorem lead_productBytes (f : FieldSpec) :
    let bs := f.productBytes
    bs.slice 7 2 = Bytes.ofWord 2 f.template ∧ bs.byteAt 9 = f.category ∧
      bs.byteAt 10 = f.number ∧ bs.byteAt 17 = f.timeUnit ∧
      bs.slice 18 4 = Bytes.ofWord 4 f.forecastTime.toNat ∧ bs.byteAt 22 = f.levelType ∧
      bs.byteAt 23 = encodeSignMagnitudeOctet f.levelScale ∧
      bs.slice 24 4 = encodeSignMagnitude f.levelValue := by
  simp [productBytes, encodeSection, encodeSignMagnitude, Bytes.ofWord, Bytes.slice, Bytes.byteAt]

theorem drop_productBytes (f : FieldSpec) :
    f.productBytes.drop 34 = f.ensembleBytes ++ f.intervalBytes := by
  simp [productBytes, encodeSection, encodeSignMagnitude, Bytes.ofWord]

theorem wordAt_template (f : FieldSpec) : f.productBytes.wordAt 7 2 = f.template := by
  refine Bytes.wordAt_eq (lead_productBytes f).1 ?_
  unfold template
  split <;> decide

theorem byteAt_tail (f : FieldSpec) (i : Nat) :
    f.productBytes.byteAt (34 + i) = Bytes.byteAt (f.ensembleBytes ++ f.intervalBytes) i := by
  rw [← drop_productBytes, Bytes.byteAt_drop]

theorem drop_tail (f : FieldSpec) :
    f.productBytes.drop (34 + f.ensembleBytes.length) = f.intervalBytes := by
  rw [← List.drop_drop, drop_productBytes, List.drop_left]

theorem duration_eq {bs : Bytes} {unitAt countAt : Nat} {unit : UInt8} {count : UInt32}
    (hunit : bs.byteAt unitAt = unit) (hcount : bs.slice countAt 4 = Bytes.ofWord 4 count.toNat)
    (known : (TimeUnit.table.lookup unit).isSome) :
    Product.duration bs unitAt countAt = .ok (span unit count) := by
  obtain ⟨n, hn⟩ := Option.isSome_iff_exists.mp known
  obtain ⟨u, hu, hseconds⟩ := TimeUnit.ofCode_of_lookup hn
  have hword : bs.wordAt countAt 4 = count.toNat := Bytes.wordAt_eq hcount count.toNat_lt
  rw [Product.duration, hunit, hu, Except.map, hword, hseconds, span, hn, Option.getD_some]

/-- The time range stands behind the ensemble, if there is one. -/
theorem rangeStart?_template (f : FieldSpec) :
    Product.rangeStart? f.template =
      f.interval.map fun _ => 34 + f.ensembleBytes.length + 12 := by
  obtain ⟨_, _, _, _, _, _, _, ensemble, interval⟩ := f
  cases ensemble <;> cases interval <;> rfl

theorem Valid.duration_range (h : Valid f) {unit : UInt8} {length : UInt32}
    (hrange : f.interval = some (unit, length)) :
    Product.duration f.productBytes (34 + f.ensembleBytes.length + 12 + 2)
      (34 + f.ensembleBytes.length + 12 + 3) = .ok (span unit length) := by
  refine duration_eq ?_ ?_ (h.rangeUnit _ hrange)
  · rw [Nat.add_assoc, ← Bytes.byteAt_drop, drop_tail, intervalBytes, hrange]
    rfl
  · rw [Nat.add_assoc, ← Bytes.slice_drop, drop_tail, intervalBytes, hrange]
    rfl

theorem Valid.readForecast (h : Valid f) :
    Product.readForecast f.template f.productBytes = .ok f.forecast := by
  obtain ⟨-, -, -, hunit, hcount, -⟩ := lead_productBytes f
  rw [Product.readForecast, duration_eq hunit hcount h.timeUnit, rangeStart?_template, forecast]
  cases hinterval : f.interval with
  | none => rfl
  | some range =>
    simp only [Option.map_some, h.duration_range hinterval]
    rfl

def readLevel (f : FieldSpec) : Option Surface :=
  Surface.decode? f.levelType (encodeSignMagnitudeOctet f.levelScale)
    (encodeSignMagnitude f.levelValue)

theorem Valid.hasLevel (h : Valid f) : f.HasLevel f.readLevel := by
  have scale := signMagnitudeOctet_encode h.levelScale
  have value := signMagnitude_encode h.levelValue
  unfold readLevel Surface.decode?
  split
  · next hnone => exact hnone
  · next hsome =>
    rw [if_neg, scale, value]
    · refine ⟨hsome, rfl, Surface.isScaled_scaledValue ?_ ?_⟩
      · have lower := f.levelScale.le_toInt
        have upper := f.levelScale.toInt_lt
        have least : f.levelScale.toInt ≠ -128 := fun he => h.levelScale (Int8.toInt_inj.mp he)
        omega
      · have lower := f.levelValue.le_toInt
        have upper := f.levelValue.toInt_lt
        omega
    rintro ⟨hscale, hvalue⟩
    apply h.present
    constructor
    · rw [hscale] at scale
      exact Int8.toInt_inj.mp (scale.symm.trans (by decide))
    · have ones : encodeSignMagnitude f.levelValue = List.replicate 4 255 :=
        List.eq_replicate_iff.mpr ⟨Bytes.length_ofWord _ _, by simpa using hvalue⟩
      rw [ones] at value
      exact Int32.toInt_inj.mp (value.symm.trans (by decide))

theorem Valid.hasLevel_iff (h : Valid f) {level : Option Surface} :
    f.HasLevel level ↔ level = f.readLevel :=
  ⟨fun hlevel => hlevel.unique h.hasLevel, fun heq => heq ▸ h.hasLevel⟩

theorem readEnsemble?_productBytes (f : FieldSpec) :
    Product.readEnsemble? f.template f.productBytes = f.member := by
  cases hensemble : f.ensemble with
  | none => cases hinterval : f.interval <;>
      simp [Product.readEnsemble?, template, member, hensemble, hinterval]
  | some e =>
    have : f.template = 1 ∨ f.template = 11 := by
      cases hinterval : f.interval <;> simp [template, hensemble, hinterval]
    rw [Product.readEnsemble?, if_pos this, byteAt_tail f 0, byteAt_tail f 1, byteAt_tail f 2,
      member, ensembleBytes, hensemble]
    rfl

/-- The product definition of a field is read back as it was specified. -/
theorem Valid.read_productBytes (h : Valid f) :
    Product.read f.productBytes = .ok (f.product f.readLevel) := by
  obtain ⟨-, hcategory, hnumber, -, -, htype, hscale, hvalue⟩ := lead_productBytes f
  have hlength := f.length_productBytes
  rw [Product.read, if_neg (by omega)]
  simp only [wordAt_template, templateLength?_eq, Nat.lt_irrefl, if_false, h.readForecast,
    Except.map, hcategory, hnumber, htype, hscale, hvalue, readEnsemble?_productBytes]
  rfl

end FieldSpec

/-! ### Sections -/

namespace Section

/-- A section that is short enough for its length not to be taken for the end marker is walked
over. -/
theorem chain_encodeSection {number : UInt8} {contents : Bytes}
    (short : (encodeSection number contents).length < 0x37373737) (offset : Nat) (rest : Bytes) :
    chain offset (encodeSection number contents ++ rest) =
      (chain (offset + (encodeSection number contents).length) rest).map
        (⟨number, offset, encodeSection number contents⟩ :: ·) := by
  have hlength := length_encodeSection number contents
  have hslice : Bytes.slice (encodeSection number contents ++ rest) 0 4 =
      Bytes.ofWord 4 (encodeSection number contents).length := by
    rw [Bytes.slice_append (by omega), hlength]
    exact List.take_left' (Bytes.length_ofWord 4 _)
  have hword : Bytes.wordAt (encodeSection number contents ++ rest) 0 4 =
      (encodeSection number contents).length :=
    Bytes.wordAt_eq hslice (by simp only [Nat.pow_eq]; omega)
  have hmarker : (encodeSection number contents ++ rest).take 4 ≠ endMarker := by
    intro h
    have : Bytes.wordAt (encodeSection number contents ++ rest) 0 4 = 0x37373737 :=
      congrArg Bytes.word h
    omega
  have hnumber : Bytes.byteAt (encodeSection number contents ++ rest) 4 = number := by
    rw [Bytes.byteAt_append (by omega), encodeSection, Bytes.byteAt]
    simp
  rw [chain, if_neg hmarker, if_neg (by simp only [List.length_append]; omega)]
  simp only [hword, hnumber]
  rw [dif_neg (by simp only [List.length_append]; omega), List.drop_left, List.take_left]

theorem chain_endMarker (offset : Nat) : chain offset endMarker = .ok [] := by
  rw [chain]
  rfl

/-- The walk over fields meets one product definition section for each, in their order. -/
theorem chain_fields (fs : List FieldSpec) (offset : Nat) :
    ∃ sections, chain offset (fs.flatMap FieldSpec.bytes ++ endMarker) = .ok sections ∧
      (sections.filter (·.number = 4)).map Section.bytes = fs.map FieldSpec.productBytes := by
  induction fs generalizing offset with
  | nil => exact ⟨[], chain_endMarker offset, rfl⟩
  | cons f fs ih =>
    simp only [List.flatMap_cons, FieldSpec.bytes, FieldSpec.dataBytes, List.append_assoc]
    have hshort := f.length_productBytes
    unfold FieldSpec.productBytes at hshort ⊢
    rw [chain_encodeSection (by omega), chain_encodeSection (by decide),
      chain_encodeSection (by decide), chain_encodeSection (by decide)]
    obtain ⟨sections, hsections, hproducts⟩ := ih _
    rw [hsections]
    refine ⟨_, rfl, ?_⟩
    simp [hproducts, FieldSpec.productBytes]

end Section

/-! ### Messages -/

namespace MessageSpec

def date (m : MessageSpec) : Date :=
  ⟨m.year.toNat, m.month.toNat, m.day.toNat⟩

structure HasTime (m : MessageSpec) (t : Instant) : Prop where
  date : Date.ofNumber (t.seconds / 86400) = m.date
  clock : t.seconds % 86400 = (3600 * m.hour.toNat + 60 * m.minute.toNat : Nat)
  whole : t.nanos = 0

theorem HasTime.unique {m : MessageSpec} {t u : Instant} (ht : m.HasTime t) (hu : m.HasTime u) :
    t = u := by
  have hday : t.seconds / 86400 = u.seconds / 86400 := by
    rw [← Date.number_ofNumber (t.seconds / 86400), ht.date, ← hu.date, Date.number_ofNumber]
  have hclock := ht.clock.trans hu.clock.symm
  have hseconds : t.seconds = u.seconds := by omega
  cases t
  cases u
  rw [Instant.mk.injEq]
  exact ⟨hseconds, ht.whole.trans hu.whole.symm⟩

/-- A specification of a message of edition 2 with a date and a time that there are, whose fields
can be numbered in 16 bits and each can be held. -/
structure Valid (m : MessageSpec) : Prop where
  edition : m.edition = 2
  date : m.date.isValid
  hour : m.hour.toNat < 24
  minute : m.minute.toNat < 60
  few : m.fields.length ≤ 65536
  fields : ∀ f ∈ m.fields, f.Valid

def readTime (m : MessageSpec) : Instant :=
  .ofDate m.date m.hour.toNat m.minute.toNat 0 0

theorem Valid.hasTime {m : MessageSpec} (h : m.Valid) : m.HasTime m.readTime := by
  have hhour := h.hour
  have hminute := h.minute
  have hday : m.readTime.seconds / 86400 = m.date.number := by
    simp only [readTime, Instant.ofDate]
    omega
  refine ⟨?_, ?_, rfl⟩
  · rw [hday, Date.ofNumber_number h.date]
  · simp only [readTime, Instant.ofDate]
    omega

theorem Valid.hasTime_iff {m : MessageSpec} (h : m.Valid) {t : Instant} :
    m.HasTime t ↔ t = m.readTime :=
  ⟨fun ht => ht.unique h.hasTime, fun heq => heq ▸ h.hasTime⟩

section

variable (time : MessageSpec → Instant) (level : FieldSpec → Option Surface)

/-- The field that a specification stands for at its place in a file and a message, when messages
have these times and fields are on these levels. -/
def field (m : MessageSpec) (file : UInt32) (offset index : Nat) (f : FieldSpec) : Field where
  file
  offset
  length := m.bytes.length
  index := UInt16.ofNat index
  centre := m.centre
  referenceTime := time m
  template := f.template
  parameter := ⟨m.discipline, f.category, f.number⟩
  forecast := f.forecast
  level := level f
  ensemble := f.member

def fieldsAt (m : MessageSpec) (file : UInt32) (offset : Nat) : List Field :=
  m.fields.mapIdx (m.field time level file offset)

end

theorem length_bytes (m : MessageSpec) : m.bytes.length = 16 + m.sectionBytes.length + 4 := by
  simp [bytes, Indicator.magic, Section.endMarker]
  omega

theorem length_sectionBytes_le (m : MessageSpec) :
    m.sectionBytes.length ≤ 93 + 93 * m.fields.length := by
  have hfields := Bytes.length_flatMap_le fun f (_ : f ∈ m.fields) => f.length_bytes_le
  simp only [sectionBytes, identificationBytes, gridBytes, List.length_append,
    length_encodeSection, Bytes.length_ofWord, List.length_replicate, List.length_cons,
    List.length_nil]
  omega

theorem drop_bytes (m : MessageSpec) :
    m.bytes.drop Section.indicatorLength = m.sectionBytes ++ Section.endMarker := by
  simp [bytes, Indicator.magic, Section.indicatorLength, Bytes.ofWord]

variable {m : MessageSpec}

theorem Valid.whole (h : Valid m) : Message.Whole m.bytes where
  magic := by simp [bytes]
  edition := by simp [bytes, Indicator.magic, Bytes.byteAt, h.edition]
  length := by
    have hlength := m.length_bytes
    have hle := m.length_sectionBytes_le
    have hfew := h.few
    refine Bytes.wordAt_eq (?_ : _ = Bytes.ofWord 8 m.bytes.length) ?_
    · rw [hlength]
      simp [bytes, Indicator.magic, Bytes.slice, Section.indicatorLength, Bytes.ofWord]
    · simp only [Nat.pow_eq]
      omega
  least := by
    rw [length_bytes]
    omega
  marker := ⟨_, rfl⟩

/-- The sections of a message: the identification first, and the product definitions of its
fields in their order. -/
theorem ofMessage_bytes (m : MessageSpec) :
    ∃ sections, Section.ofMessage m.bytes = .ok sections ∧
      Section.withNumber 1 sections = .ok ⟨1, 16, m.identificationBytes⟩ ∧
      (sections.filter (·.number = 4)).map Section.bytes = m.fields.map FieldSpec.productBytes := by
  rw [Section.ofMessage, drop_bytes, sectionBytes, identificationBytes, gridBytes]
  simp only [List.append_assoc]
  rw [Section.chain_encodeSection (by simp [length_encodeSection]),
    Section.chain_encodeSection (by simp [length_encodeSection])]
  obtain ⟨sections, hsections, hproducts⟩ := Section.chain_fields m.fields _
  rw [hsections]
  exact ⟨_, rfl, rfl, by simpa using hproducts⟩

theorem Valid.read_identification (h : Valid m) :
    ∃ source, Identification.read m.identificationBytes = .ok source ∧
      source.centre = m.centre ∧ source.referenceTime = m.readTime := by
  have hcentre : m.identificationBytes.wordAt 5 2 = m.centre.toNat :=
    Bytes.wordAt_eq rfl m.centre.toNat_lt
  have hyear : m.identificationBytes.wordAt 12 2 = m.year.toNat :=
    Bytes.wordAt_eq rfl m.year.toNat_lt
  have htime : Instant.ofCivil? ⟨m.year.toNat, (m.identificationBytes.byteAt 14).toNat,
      (m.identificationBytes.byteAt 15).toNat⟩ (m.identificationBytes.byteAt 16).toNat
      (m.identificationBytes.byteAt 17).toNat (m.identificationBytes.byteAt 18).toNat =
        some m.readTime := by
    have : (m.date.isValid && decide (m.hour.toNat < 24) && decide (m.minute.toNat < 60) &&
        decide (0 < 60)) = true := by simp [h.date, h.hour, h.minute]
    exact if_pos this
  have hlength : m.identificationBytes.length = 21 := by
    simp [identificationBytes, length_encodeSection]
  rw [Identification.read, if_neg (by omega)]
  simp only [hcentre, hyear, htime]
  exact ⟨_, rfl, UInt16.ofNat_toNat, rfl⟩

/-- A product definition makes the field that was specified. -/
theorem Valid.field_eq (h : Valid m) {file : UInt32} {offset index : Nat} {source : Identification}
    (centre : source.centre = m.centre) (time : source.referenceTime = m.readTime)
    {f : FieldSpec} (hf : f ∈ m.fields) {s : Section} (bytes : s.bytes = f.productBytes) :
    Message.field file offset (Message.indicator m.bytes) source index s =
      .ok (m.field readTime FieldSpec.readLevel file offset index f) := by
  have hdiscipline : m.bytes.byteAt 6 = m.discipline := rfl
  rw [Message.field, bytes, (h.fields f hf).read_productBytes, Except.map, field, centre, time,
    Message.indicator, hdiscipline]
  rfl

/-- A message by itself is read as the fields that were specified. -/
theorem Valid.read_fields (h : Valid m) (file : UInt32) (offset : Nat) :
    Message.fields file offset (Message.indicator m.bytes) m.bytes =
      .ok ((m.fieldsAt readTime FieldSpec.readLevel file offset).map .ok) := by
  obtain ⟨sections, hsections, hfirst, hproducts⟩ := m.ofMessage_bytes
  obtain ⟨source, hsource, hcentre, htime⟩ := h.read_identification
  have hlength := m.length_bytes
  have hitems : (sections.filter (·.number = 4)).mapIdx
      (Message.field file offset (Message.indicator m.bytes) source) =
        (m.fieldsAt readTime FieldSpec.readLevel file offset).map .ok := by
    rw [List.mapIdx_eq_iff]
    intro i
    have hi := congrArg (·[i]?) hproducts
    simp only [List.getElem?_map] at hi
    simp only [fieldsAt, List.getElem?_map, List.getElem?_mapIdx, Option.map_map]
    cases hf : m.fields[i]? with
    | none =>
      rw [hf, Option.map_none, Option.map_eq_none_iff] at hi
      rw [hi]
      rfl
    | some f =>
      rw [hf, Option.map_some] at hi
      obtain ⟨s, hs, hbytes⟩ := Option.map_eq_some_iff.mp hi
      rw [hs, Option.map_some, Option.map_some,
        h.field_eq hcentre htime (List.mem_of_getElem? hf) hbytes, Function.comp]
  rw [Message.fields, if_neg (by simp only [Section.indicatorLength]; omega), hsections]
  simp only [bind, Except.bind, hfirst, hsource]
  split
  · next hnone => simp [hnone, MessageSpec.fields] at hproducts
  · rw [← hitems]

/-- A message in front of a stream yields its fields, and the stream yields what it yields there. -/
theorem Valid.scanFrom_append (h : Valid m) (file : UInt32) (offset : Nat) (rest : Bytes) :
    scanFrom file offset (m.bytes ++ rest) =
      (m.fieldsAt readTime FieldSpec.readLevel file offset).map .ok ++
        scanFrom file (offset + m.bytes.length) rest := by
  have hlength : (Message.indicator m.bytes).length = m.bytes.length := rfl
  rw [h.whole.scanFrom_append, Frame.items, hlength, List.take_length, h.read_fields]

/-- The fields are numbered from zero, and no number is cut off. -/
theorem Valid.index_fieldsAt (h : Valid m) (time : MessageSpec → Instant)
    (level : FieldSpec → Option Surface) (file : UInt32) (offset : Nat) :
    (m.fieldsAt time level file offset).map (·.index.toNat) = List.range m.fields.length := by
  have hfew := h.few
  refine List.ext_getElem (by simp [fieldsAt]) fun i hi _ => ?_
  simp only [fieldsAt, List.length_map, List.length_mapIdx] at hi
  simp only [fieldsAt, List.getElem_map, List.getElem_mapIdx, field, UInt16.toNat_ofNat',
    List.getElem_range]
  omega

end MessageSpec

theorem scanFrom_encodeMessages {ms : List MessageSpec} (valid : ∀ m ∈ ms, m.Valid)
    (file : UInt32) (offset : Nat) :
    scanFrom file offset (encodeMessages ms) = (ms.mapIdx fun k m =>
      m.fieldsAt MessageSpec.readTime FieldSpec.readLevel file
        (offset + ((ms.take k).map (·.bytes.length)).sum)).flatten.map .ok := by
  induction ms generalizing offset with
  | nil => exact scanFrom_of_none rfl
  | cons m ms ih =>
    rw [List.forall_mem_cons] at valid
    rw [encodeMessages, List.flatMap_cons, valid.1.scanFrom_append]
    have hrest := ih valid.2 (offset + m.bytes.length)
    rw [encodeMessages] at hrest
    rw [hrest]
    simp [List.mapIdx_cons, Nat.add_assoc]

/-- Scanning a stream of written messages yields the fields that were specified and nothing else:
message by message and in their order, each with the place of its message, its number in the
message, and the values of its specification. A message has no other time and a field no other level
(`Valid.hasTime_iff`, `Valid.hasLevel_iff`). -/
theorem scan_encodeMessages {ms : List MessageSpec} (valid : ∀ m ∈ ms, m.Valid) (file : UInt32) :
    ∃ (time : MessageSpec → Instant) (level : FieldSpec → Option Surface),
      (∀ m ∈ ms, m.HasTime (time m)) ∧ (∀ m ∈ ms, ∀ f ∈ m.fields, f.HasLevel (level f)) ∧
      scan file (encodeMessages ms) = (ms.mapIdx fun k m =>
        m.fieldsAt time level file ((ms.take k).map (·.bytes.length)).sum).flatten.map .ok ∧
      ∀ m ∈ ms, ∀ offset, (m.fieldsAt time level file offset).map (·.index.toNat) =
        List.range m.fields.length := by
  refine ⟨MessageSpec.readTime, FieldSpec.readLevel, fun m hm => (valid m hm).hasTime_iff.mpr rfl,
    fun m hm f hf => ((valid m hm).fields f hf).hasLevel_iff.mpr rfl, ?_,
    fun m hm => (valid m hm).index_fieldsAt _ _ file⟩
  have h := scanFrom_encodeMessages valid file 0
  simpa only [scan, Nat.zero_add] using h

/-- Soil half a metre below the ground, and in a second message the rain of one member of an ensemble
over six hours and a field on no level. -/
theorem scan_encodeMessages_soil :
    let soil : FieldSpec := { levelType := 106, levelScale := 1, levelValue := -5 }
    let rain : FieldSpec :=
      { category := 1, number := 8, forecastTime := 6, levelType := 1, levelValue := 0
        ensemble := some (3, 7, 30), interval := some (11, 1) }
    let cloud : FieldSpec := { category := 6, timeUnit := 2, forecastTime := 3, levelType := 255 }
    let ms : List MessageSpec :=
      [{ first := soil }, { year := 2024, month := 2, day := 29, first := rain, more := [cloud] }]
    (∀ m ∈ ms, m.Valid) ∧
      (∀ level, soil.HasLevel level ↔ level = some ⟨106, ⟨0xBFE0000000000000⟩⟩) ∧
      ∃ (time : MessageSpec → Instant) (level : FieldSpec → Option Surface),
        (∀ m ∈ ms, m.HasTime (time m)) ∧ (∀ m ∈ ms, ∀ f ∈ m.fields, f.HasLevel (level f)) ∧
        scan 7 (encodeMessages ms) = (ms.mapIdx fun k m =>
          m.fieldsAt time level 7 ((ms.take k).map (·.bytes.length)).sum).flatten.map .ok ∧
        ∀ m ∈ ms, ∀ offset, (m.fieldsAt time level 7 offset).map (·.index.toNat) =
          List.range m.fields.length := by
  intro soil rain cloud ms
  have hsoil : soil.Valid := ⟨rfl, nofun, by decide, by decide, by decide⟩
  have hrain : rain.Valid := ⟨rfl, by rintro _ ⟨⟩; rfl, by decide, by decide, by decide⟩
  have hcloud : cloud.Valid := ⟨rfl, nofun, by decide, by decide, by decide⟩
  have hlevel : soil.readLevel = some ⟨106, ⟨0xBFE0000000000000⟩⟩ := by decide +kernel
  have valid : ∀ m ∈ ms, m.Valid := by
    simp only [ms, List.forall_mem_cons, List.not_mem_nil, false_imp_iff, implies_true, and_true]
    exact ⟨⟨rfl, by decide, by decide, by decide, by decide,
        by simpa [MessageSpec.fields] using hsoil⟩,
      ⟨rfl, by decide, by decide, by decide, by decide,
        by simpa [MessageSpec.fields] using ⟨hrain, hcloud⟩⟩⟩
  exact ⟨valid, fun _ => hlevel ▸ hsoil.hasLevel_iff, scan_encodeMessages valid 7⟩

end GribCatalog
