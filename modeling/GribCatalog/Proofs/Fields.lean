import GribCatalog.Proofs.Address
import GribCatalog.Proofs.Walk
import Mathlib.Data.List.Pairwise

/-! Fields of one message. Every product definition section makes the item of its place, and what
is in its body makes no other: a walk reads nothing but the heads of sections and the end marker, so
that the sections of a message whose bytes differ in one body have the same places. -/

namespace GribCatalog

namespace Bytes

structure SameOutside (first last : Nat) (bs bs' : Bytes) : Prop where
  length : bs'.length = bs.length
  same : ∀ i, i < first ∨ last ≤ i → bs'[i]? = bs[i]?

variable {first last start len : Nat} {bs bs' : Bytes}

theorem SameOutside.byteAt_eq (h : SameOutside first last bs bs') {i : Nat}
    (apart : i < first ∨ last ≤ i) : bs'.byteAt i = bs.byteAt i := by
  simp only [byteAt, List.getD_eq_getElem?_getD, h.same i apart]

theorem SameOutside.slice_eq (h : SameOutside first last bs bs')
    (apart : start + len ≤ first ∨ last ≤ start) : bs'.slice start len = bs.slice start len := by
  apply List.ext_getElem?
  intro i
  simp only [slice, List.getElem?_take, List.getElem?_drop]
  split
  · exact h.same (start + i) (by omega)
  · rfl

theorem SameOutside.wordAt_eq (h : SameOutside first last bs bs')
    (apart : start + len ≤ first ∨ last ≤ start) : bs'.wordAt start len = bs.wordAt start len := by
  rw [wordAt, wordAt, h.slice_eq apart]

end Bytes

open Bytes (SameOutside)

namespace Section

variable {m m' : Bytes} {start stop first last i : Nat} {s t : Section} {sections : List Section}

/-- What stands in another message at the place of a section. -/
def reread (m : Bytes) (s : Section) : Section :=
  { s with bytes := m.slice s.offset s.bytes.length }

theorem EndsAt.congr (h : SameOutside first last m m') (apart : i + 4 ≤ first ∨ last ≤ i) :
    EndsAt m' i ↔ EndsAt m i := by
  rw [endsAt_iff, endsAt_iff]
  exact Iff.of_eq (congrArg (· = endMarker) (h.slice_eq apart))

theorem suffix_iff_endsAt (h : 4 ≤ m.length) : endMarker <:+ m ↔ EndsAt m (m.length - 4) := by
  rw [endsAt_iff, List.take_of_length_le (by rw [List.length_drop]; omega),
    List.suffix_iff_eq_drop, eq_comm]
  rfl

theorem StartsAt.congr (h : SameOutside first last m m') (apart : i + 4 ≤ first ∨ last ≤ i)
    (starts : StartsAt m i) : StartsAt m' i where
  unmarked := mt (EndsAt.congr h apart).mp starts.unmarked
  least := h.wordAt_eq apart ▸ starts.least
  inside := by
    rw [h.wordAt_eq apart, h.length]
    exact starts.inside

/-- A run is the same run in a message that has the same heads of its sections. -/
theorem Run.reread (h : SameOutside first last m m') (run : Run m start sections stop)
    (heads : ∀ s ∈ sections, s.offset + 5 ≤ first ∨ last ≤ s.offset) :
    Run m' start (sections.map (reread m')) stop := by
  induction sections generalizing start with
  | nil => exact run_nil_iff.mpr (run_nil_iff.mp run)
  | cons s sections ih =>
    obtain ⟨starts, rfl, rest⟩ := run_cons_iff.mp run
    rw [List.forall_mem_cons] at heads
    have hhead : start + 5 ≤ first ∨ last ≤ start := heads.1
    have starts' : StartsAt m' start := starts.congr h (by omega)
    have hword : m'.wordAt start 4 = m.wordAt start 4 := h.wordAt_eq (by omega)
    have hsame : Section.reread m' (startingAt m start) = startingAt m' start := by
      rw [Section.reread, starts.length_bytes, startingAt, startingAt, hword,
        h.byteAt_eq (by omega)]
    have hfinish : (startingAt m' start).finish = (startingAt m start).finish := by
      rw [starts'.finish_eq, starts.finish_eq, hword]
    rw [List.map_cons, hsame]
    exact run_cons_iff.mpr ⟨starts', rfl, hfinish ▸ ih rest heads.2⟩

theorem Run.apart (run : Run m start sections stop) (hs : s ∈ sections) (ht : t ∈ sections)
    (hne : s ≠ t) : s.finish ≤ t.offset ∨ t.finish ≤ s.offset := by
  have hpairs : sections.Pairwise fun s t => s.finish ≤ t.offset ∨ t.finish ≤ s.offset :=
    run.pairwise.2.imp .inl
  have : Std.Symm fun s t : Section => s.finish ≤ t.offset ∨ t.finish ≤ s.offset :=
    ⟨fun _ _ => Or.symm⟩
  exact hpairs.forall hs ht hne

theorem Run.nodup (run : Run m start sections stop) : sections.Nodup := by
  refine run.pairwise.2.imp_of_mem fun {s t} hs _ hst heq => ?_
  have hbounds := run.pairwise.1 s hs
  rw [← heq] at hst
  omega

def definitions (sections : List Section) : List Section :=
  sections.filter (·.number = 4)

theorem definitions_map_reread (m : Bytes) (sections : List Section) :
    definitions (sections.map (reread m)) = (definitions sections).map (reread m) :=
  List.filter_map ..

end Section

open Section (definitions reread)

namespace Message

structure Readable (m : Bytes) (sections : List Section) (source : Identification) : Prop where
  whole : Whole m
  walk : Section.ofMessage m = .ok sections
  identified : ∃ first, Section.withNumber 1 sections = .ok first ∧
    Identification.read first.bytes = .ok source
  defined : definitions sections ≠ []

/-- The field of a product: what it says itself, and what its message says of all its fields. -/
def fieldOf (file : UInt32) (m : Bytes) (source : Identification) (index : UInt16)
    (product : Product) : Field where
  file
  offset := 0
  length := m.length
  index
  centre := source.centre
  referenceTime := source.referenceTime
  template := product.template
  parameter := ⟨m.byteAt 6, product.category, product.number⟩
  forecast := product.forecast
  level := product.level
  ensemble := product.ensemble

namespace Readable

variable {m m' : Bytes} {sections : List Section} {source : Identification} {i : Nat} {s : Section}

/-- The items of a message are those of its product definition sections, in their order. -/
theorem scan_eq (h : Readable m sections source) (file : UInt32) :
    scan file m = (definitions sections).mapIdx (field file 0 (indicator m) source) := by
  obtain ⟨first, hfirst, hsource⟩ := h.identified
  have hleast := h.whole.least
  have hfields : fields file 0 (indicator m) m =
      .ok ((definitions sections).mapIdx (field file 0 (indicator m) source)) := by
    rw [fields, if_neg (Nat.not_lt_of_le (Nat.le_trans (by decide) hleast)), h.walk]
    simp only [bind, Except.bind, hfirst, hsource]
    split
    · next hnone => exact absurd hnone h.defined
    · rfl
  rw [h.whole.scan_eq, Frame.items, show (indicator m).length = m.length from rfl,
    List.take_length, hfields]

theorem reread_of_ne (h : Readable m sections source) (hs : s ∈ sections)
    (change : SameOutside (s.offset + 5) s.finish m m') {t : Section} (ht : t ∈ sections)
    (hne : t ≠ s) : reread m' t = t := by
  obtain ⟨stop, tiles⟩ := Section.ofMessage_eq_ok_iff.mp h.walk
  have hapart := tiles.run.apart ht hs hne
  have hfinish : t.finish = t.offset + t.bytes.length := rfl
  rw [reread, change.slice_eq (by omega), tiles.run.slice_eq ht]

theorem walk_reread (h : Readable m sections source) (hs : s ∈ sections)
    (change : SameOutside (s.offset + 5) s.finish m m') :
    Section.ofMessage m' = .ok (sections.map (reread m')) := by
  obtain ⟨stop, tiles⟩ := Section.ofMessage_eq_ok_iff.mp h.walk
  have hstop := (tiles.run.pairwise.1 s hs).2.2
  refine Section.ofMessage_eq_ok_iff.mpr ⟨stop, tiles.run.reread change fun t ht => ?_,
    (Section.EndsAt.congr change (.inr hstop)).mpr tiles.marked⟩
  by_cases hne : t = s
  · exact .inl (Nat.le_of_eq (hne ▸ rfl))
  · have hbounds := tiles.run.pairwise.1 t ht
    have hapart := tiles.run.apart ht hs hne
    omega

/-- The indicator and the end marker of a message are not among its sections. -/
theorem whole_reread (h : Readable m sections source) (hs : s ∈ sections)
    (change : SameOutside (s.offset + 5) s.finish m m') : Whole m' := by
  obtain ⟨stop, tiles⟩ := Section.ofMessage_eq_ok_iff.mp h.walk
  obtain ⟨hstart, -, hstop⟩ := tiles.run.pairwise.1 s hs
  have hmarked := tiles.marked.le_length
  have hleast := h.whole.least
  rw [Section.indicatorLength] at hstart
  have hmagic : m'.take 4 = m.take 4 :=
    show m'.slice 0 4 = m.slice 0 4 from change.slice_eq (by omega)
  have hmarker : Section.EndsAt m' (m.length - 4) :=
    (Section.EndsAt.congr change (by omega)).mpr
      ((Section.suffix_iff_endsAt (by omega)).mp h.whole.marker)
  refine ⟨?_, ?_, ?_, ?_, ?_⟩
  · exact List.prefix_iff_eq_take.mpr ((List.prefix_iff_eq_take.mp h.whole.magic).trans hmagic.symm)
  · rw [change.byteAt_eq (by omega), h.whole.edition]
  · rw [change.wordAt_eq (by omega), h.whole.length, change.length]
  · exact change.length ▸ hleast
  · exact (Section.suffix_iff_endsAt (by rw [change.length]; omega)).mpr (change.length ▸ hmarker)

theorem reread (h : Readable m sections source) (hs : s ∈ definitions sections)
    (change : SameOutside (s.offset + 5) s.finish m m') :
    Readable m' (sections.map (Section.reread m')) source where
  whole := h.whole_reread (List.mem_of_mem_filter hs) change
  walk := h.walk_reread (List.mem_of_mem_filter hs) change
  identified := by
    obtain ⟨hmem, hnumber⟩ := List.mem_filter.mp hs
    obtain ⟨first, hfirst, hsource⟩ := h.identified
    obtain ⟨before, after, rfl, hone, hbefore⟩ := Section.withNumber_eq_ok_iff.mp hfirst
    have hne : first ≠ s := by
      rintro rfl
      rw [hone] at hnumber
      cases hnumber
    have hsame : Section.reread m' first = first :=
      h.reread_of_ne hmem change (by simp) hne
    refine ⟨first, Section.withNumber_eq_ok_iff.mpr
      ⟨before.map (Section.reread m'), after.map (Section.reread m'), ?_, hone, ?_⟩, hsource⟩
    · rw [List.map_append, List.map_cons, hsame]
    · intro t ht
      obtain ⟨t, hmem, rfl⟩ := List.mem_map.mp ht
      exact hbefore t hmem
  defined := by
    rw [Section.definitions_map_reread, ne_eq, List.map_eq_nil_iff]
    exact h.defined

variable {file : UInt32}

theorem getElem?_scan (h : Readable m sections source) (hs : (definitions sections)[i]? = some s) :
    (scan file m)[i]? = some (field file 0 (indicator m) source i s) := by
  rw [h.scan_eq, List.getElem?_mapIdx, hs, Option.map_some]

/-- The number of a section is that of its field where the message has no more sections than there
are numbers. -/
theorem toNat_index (few : (definitions sections).length ≤ 65536)
    (hs : (definitions sections)[i]? = some s) : (UInt16.ofNat i).toNat = i := by
  obtain ⟨hi, -⟩ := List.getElem?_eq_some_iff.mp hs
  rw [UInt16.toNat_ofNat']
  exact Nat.mod_eq_of_lt (Nat.lt_of_lt_of_le hi few)

theorem item_eq_ok_iff (h : Readable m sections source)
    (few : (definitions sections).length ≤ 65536) (hs : (definitions sections)[i]? = some s)
    {f : Field} :
    (scan file m)[i]? = some (.ok f) ↔
      ∃ product, Product.read s.bytes = .ok product ∧ f.index.toNat = i ∧
        f = fieldOf file m source f.index product := by
  have hindex := toNat_index few hs
  rw [h.getElem?_scan hs, Option.some.injEq, field, Except.map_eq_ok_iff]
  constructor
  · rintro ⟨product, hread, rfl⟩
    exact ⟨product, hread, hindex, rfl⟩
  · rintro ⟨product, hread, hnumber, hf⟩
    have hsame : f.index = UInt16.ofNat i := UInt16.toNat_inj.mp (hnumber.trans hindex.symm)
    rw [hsame] at hf
    exact ⟨product, hread, hf.symm⟩

theorem item_eq_error_iff (h : Readable m sections source)
    (hs : (definitions sections)[i]? = some s) {fault : ScanFault} :
    (scan file m)[i]? = some (.error fault) ↔ Product.read s.bytes = .error fault := by
  rw [h.getElem?_scan hs, Option.some.injEq, field, Except.map_eq_error_iff]

/-- The body of a product definition has a part in its own item only. -/
theorem item_eq_of_ne (h : Readable m sections source) (hs : (definitions sections)[i]? = some s)
    (change : SameOutside (s.offset + 5) s.finish m m') {j : Nat} (hne : j ≠ i) :
    (scan file m')[j]? = (scan file m)[j]? := by
  have hmem := List.mem_of_getElem? hs
  obtain ⟨stop, tiles⟩ := Section.ofMessage_eq_ok_iff.mp h.walk
  obtain ⟨hstart, -, -⟩ := tiles.run.pairwise.1 s (List.mem_of_mem_filter hmem)
  rw [Section.indicatorLength] at hstart
  have hindicator : indicator m' = indicator m := by
    rw [indicator, indicator, change.length, change.byteAt_eq (by omega)]
  rw [(h.reread hmem change).scan_eq, h.scan_eq, hindicator, List.getElem?_mapIdx,
    List.getElem?_mapIdx, Section.definitions_map_reread, List.getElem?_map]
  cases ht : (definitions sections)[j]? with
  | none => rfl
  | some t =>
    have hother : t ≠ s := by
      rintro rfl
      obtain ⟨hj, -⟩ := List.getElem?_eq_some_iff.mp ht
      exact hne ((List.getElem?_inj hj (tiles.run.nodup.filter _)).mp (ht.trans hs.symm))
    have hsame : Section.reread m' t = t :=
      h.reread_of_ne (List.mem_of_mem_filter hmem) change
        (List.mem_of_mem_filter (List.mem_of_getElem? ht)) hother
    rw [Option.map_some, Option.map_some, Option.map_some, hsame]

/-- A message has an item for every product definition section, in their order: the field that the
section makes when it can be read, with what it shares with the others, and its fault when not. In
a message that differs in the body of one of them the other items are the same. -/
theorem fields_apart (h : Readable m sections source)
    (few : (definitions sections).length ≤ 65536) (file : UInt32) :
    (scan file m).length = (definitions sections).length ∧
    (∀ (i : Nat) (s : Section), (definitions sections)[i]? = some s →
      (∀ f, (scan file m)[i]? = some (.ok f) ↔
        ∃ product, Product.read s.bytes = .ok product ∧ f.index.toNat = i ∧
          f = fieldOf file m source f.index product) ∧
      ∀ fault, (scan file m)[i]? = some (.error fault) ↔ Product.read s.bytes = .error fault) ∧
    ∀ (i : Nat) (s : Section) (m' : Bytes), (definitions sections)[i]? = some s →
      SameOutside (s.offset + 5) s.finish m m' →
        Readable m' (sections.map (Section.reread m')) source ∧
          ∀ j, j ≠ i → (scan file m')[j]? = (scan file m)[j]? := by
  refine ⟨by rw [h.scan_eq, List.length_mapIdx], fun i s hs => ?_, fun i s m' hs change => ?_⟩
  · exact ⟨fun f => h.item_eq_ok_iff few hs, fun fault => h.item_eq_error_iff hs⟩
  · exact ⟨h.reread (List.mem_of_getElem? hs) change, fun j hne => h.item_eq_of_ne hs change hne⟩

end Readable

/-- Two forecasts in one message, and the message in which the first has a template that is not
read. -/
theorem fields_apart_template :
    let definition := (june 1).slice 37 34
    let m := (june 1).take 15 ++ [109] ++ (june 1).slice 16 21 ++ definition ++ definition ++
      Section.endMarker
    let m' := m.set 45 40
    let sections := [⟨1, 16, (june 1).slice 16 21⟩, ⟨4, 37, definition⟩, ⟨4, 71, definition⟩]
    let source := ⟨98, 0, 1, ⟨1685577600, 0⟩⟩
    (Readable m sections source ∧ (definitions sections).length ≤ 65536 ∧
      SameOutside 42 71 m m') ∧
    (scan 0 m).length = 2 ∧ (∃ f, (scan 0 m)[1]? = some (.ok f) ∧ f.index = 1) ∧
      (scan 0 m')[0]? = some (.error (.template 40)) ∧ (scan 0 m')[1]? = (scan 0 m)[1]? := by
  intro definition m m' sections source
  have readable : Readable m sections source :=
    ⟨⟨by decide +kernel, by decide +kernel, by decide +kernel, by decide +kernel,
      by decide +kernel⟩, by decide +kernel, ⟨_, rfl, by decide +kernel⟩, by decide +kernel⟩
  have few : (definitions sections).length ≤ 65536 := by decide
  have change : SameOutside 42 71 m m' := by
    refine ⟨List.length_set, fun i hi => ?_⟩
    exact List.getElem?_set_ne (by omega)
  obtain ⟨count, items, apart⟩ := readable.fields_apart few 0
  obtain ⟨readable', same⟩ := apart 0 ⟨4, 37, definition⟩ m' rfl change
  obtain ⟨product, hread⟩ : ∃ product, Product.read definition = .ok product := ⟨_, rfl⟩
  refine ⟨⟨readable, few, change⟩, count, ?_, ?_, same 1 (by decide)⟩
  · exact ⟨_, ((items 1 ⟨4, 71, definition⟩ rfl).1 (fieldOf 0 m source 1 product)).mpr
      ⟨product, hread, rfl, rfl⟩, rfl⟩
  · exact ((readable'.fields_apart few 0).2.1 0 _ rfl).2 _ |>.mpr (by decide +kernel)

end Message

end GribCatalog
