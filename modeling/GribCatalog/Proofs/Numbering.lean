import GribCatalog.Grib.Dimension
import GribCatalog.Proofs.Encoding
import GribCatalog.Proofs.Extent

/-! Addresses of fields: the offset of the message and the number in the message. Messages
do not overlap, so only fields of one message can share an address, and since a number
has 16 bits, they do when their places in the message differ by a multiple of 65536. -/

namespace GribCatalog

/-- What tells the fields of a file apart. -/
def Field.address (f : Field) : Nat × UInt16 :=
  (f.offset, f.index)

theorem ScanItem.nodup_addresses_iff {items : List ScanItem} :
    ((fields items).map Field.address).Nodup ↔
      items.Pairwise fun x y => ∀ f, x = .ok f → ∀ g, y = .ok g → f.address ≠ g.address := by
  rw [List.Nodup, List.pairwise_map, fields, List.pairwise_filterMap]
  refine List.Pairwise.iff fun x y => ?_
  cases x <;> cases y <;> simp

namespace Stop

variable {file : UInt32} {s : Stop}

/-- No two fields of a stop have places that differ by a multiple of 65536. -/
def NumbersApart (file : UInt32) (s : Stop) : Prop :=
  ∀ i j f g, i < j → (s.items file)[i]? = some (.ok f) → (s.items file)[j]? = some (.ok g) →
    i % 65536 ≠ j % 65536

theorem index_of_getElem? {i : Nat} {f : Field} (h : (s.items file)[i]? = some (.ok f)) :
    f.index = UInt16.ofNat i := by
  rcases items_cases file s with ⟨fault, hitems, -⟩ | ⟨_, source, sections, -, -, -, hitems⟩
  · have := List.mem_of_getElem? h
    rw [hitems] at this
    simp at this
  · rw [hitems, List.getElem?_mapIdx, Option.map_eq_some_iff] at h
    obtain ⟨section4, -, hfield⟩ := h
    exact (Message.field_eq_ok hfield).2.2

theorem address_eq_iff {i j : Nat} {f g : Field} (hf : (s.items file)[i]? = some (.ok f))
    (hg : (s.items file)[j]? = some (.ok g)) : f.address = g.address ↔ i % 65536 = j % 65536 := by
  have hoffset : f.offset = g.offset :=
    (offset_of_mem_items (List.mem_of_getElem? hf)).trans
      (offset_of_mem_items (List.mem_of_getElem? hg)).symm
  rw [Field.address, Field.address, Prod.mk.injEq, index_of_getElem? hf, index_of_getElem? hg,
    ← UInt16.toNat_inj, UInt16.toNat_ofNat', UInt16.toNat_ofNat']
  exact and_iff_right hoffset

theorem numbersApart_iff : s.NumbersApart file ↔
    (s.items file).Pairwise
      fun x y => ∀ f, x = .ok f → ∀ g, y = .ok g → f.address ≠ g.address := by
  rw [List.pairwise_iff_getElem]
  constructor
  · rintro apart i j hi hj hij f hf g hg
    have hf : (s.items file)[i]? = some (.ok f) := hf ▸ List.getElem?_eq_getElem hi
    have hg : (s.items file)[j]? = some (.ok g) := hg ▸ List.getElem?_eq_getElem hj
    exact mt (address_eq_iff hf hg).mp (apart i j f g hij hf hg)
  · intro apart i j f g hij hf hg
    obtain ⟨hi, hif⟩ := List.getElem?_eq_some_iff.mp hf
    obtain ⟨hj, hjg⟩ := List.getElem?_eq_some_iff.mp hg
    exact mt (address_eq_iff hf hg).mpr (apart i j hi hj hij f hif g hjg)

/-- A field's message has as many product definition sections as its stop has items. -/
theorem products_of_mem_items {f : Field} (h : .ok f ∈ s.items file) :
    Message.products (s.bytes.take f.length) = (s.items file).length := by
  rcases items_cases file s with
    ⟨fault, hitems, -⟩ | ⟨indicator, source, sections, -, hsections, -, hitems⟩
  · rw [hitems] at h
    simp at h
  · obtain ⟨i, hi, hfield⟩ := List.mem_mapIdx.mp (hitems ▸ h)
    rw [(Message.field_eq_ok hfield).2.1, Message.products, hsections, hitems, List.length_mapIdx]

end Stop

/-- Addresses tell the fields of a file apart as far as numbers do it in every message. -/
theorem pairwise_addresses_iff (file : UInt32) (bs : Bytes) :
    ((ScanItem.fields (scan file bs)).map Field.address).Nodup ↔
      ∀ s ∈ stopsFrom 0 bs, s.NumbersApart file := by
  have elsewhere : (stopsFrom 0 bs).Pairwise fun s t => ∀ x ∈ s.items file, ∀ y ∈ t.items file,
      ∀ f, x = .ok f → ∀ g, y = .ok g → f.address ≠ g.address := by
    refine (pairwise_stopsFrom 0 bs).imp fun {s t} hst x hx y hy f hf g hg same => ?_
    have hf := Stop.offset_of_mem_items (hf ▸ hx)
    have hg := Stop.offset_of_mem_items (hg ▸ hy)
    have := s.place_lt_finish
    have : f.offset = g.offset := congrArg Prod.fst same
    omega
  rw [ScanItem.nodup_addresses_iff, scan, scanFrom_eq_flatMap, List.pairwise_flatMap]
  simp only [Stop.numbersApart_iff, elsewhere, and_true]

theorem Field.location_eq_iff {file : UInt32} {bs : Bytes} {f g : Field}
    (hf : f ∈ ScanItem.fields (scan file bs)) (hg : g ∈ ScanItem.fields (scan file bs)) :
    (Located.location f : Location) = Located.location g ↔ f.address = g.address := by
  have hfile : f.file = g.file := (file_of_mem_scan hf).trans (file_of_mem_scan hg).symm
  have hlength : f.offset = g.offset → f.length = g.length := by
    intro same
    obtain ⟨s, hs, hplace, hfinish⟩ := exists_stop_of_mem_scan hf
    obtain ⟨t, ht, hplace', hfinish'⟩ := exists_stop_of_mem_scan hg
    obtain rfl := eq_of_place_eq hs ht (hplace.symm.trans (same.trans hplace'))
    omega
  simp only [Located.location, Location.mk.injEq, address, Prod.mk.injEq, hfile, true_and]
  exact ⟨fun h => ⟨h.1, h.2.2⟩, fun h => ⟨h.1, hlength h.1, h.2⟩⟩

/-- The fields of a file have addresses, and so locations, of their own exactly when no message has
two fields whose places in it differ by a multiple of 65536; that is so wherever a message with a
field has no more than 65536 product definition sections. -/
theorem addresses_distinct_iff (file : UInt32) (bs : Bytes) :
    let fields := ScanItem.fields (scan file bs)
    ((fields.map Field.address).Nodup ↔ ∀ s ∈ stopsFrom 0 bs, s.NumbersApart file) ∧
      ((fields.map Located.location).Nodup ↔ ∀ s ∈ stopsFrom 0 bs, s.NumbersApart file) ∧
      ((∀ f ∈ fields, Message.products (bs.slice f.offset f.length) ≤ 65536) →
        (fields.map Field.address).Nodup) := by
  intro fields
  have addresses : (fields.map Field.address).Nodup ↔ ∀ s ∈ stopsFrom 0 bs, s.NumbersApart file :=
    pairwise_addresses_iff file bs
  have located : (fields.map Located.location).Nodup ↔ (fields.map Field.address).Nodup := by
    simp only [List.Nodup, List.pairwise_map]
    refine List.Pairwise.iff_of_mem fun {f g} hf hg => not_congr (Field.location_eq_iff hf hg)
  refine ⟨addresses, located.trans addresses, fun few => addresses.mpr ?_⟩
  intro s hs i j f g hij hf hg
  have hmem : .ok g ∈ s.items file := List.mem_of_getElem? hg
  obtain ⟨start, rfl, -⟩ := bytes_of_mem_stopsFrom hs
  have hslice : bs.slice g.offset g.length = (bs.drop start).take g.length := by
    rw [Stop.offset_of_mem_items hmem, Nat.zero_add, Bytes.slice]
  have hscan : g ∈ fields := by
    rw [ScanItem.mem_fields, scan, scanFrom_eq_flatMap]
    exact List.mem_flatMap.mpr ⟨_, hs, hmem⟩
  have hcount := few g hscan
  rw [hslice, Stop.products_of_mem_items hmem] at hcount
  obtain ⟨hj, -⟩ := List.getElem?_eq_some_iff.mp hg
  omega

/-! ### A message with more fields than numbers -/

/-- The walk over product definition sections meets each of them, in their order. -/
theorem Section.chain_products {contents : List Bytes}
    (short : ∀ c ∈ contents, (encodeSection 4 c).length < 0x37373737) (offset : Nat) :
    ∃ sections, chain offset (contents.flatMap (encodeSection 4) ++ endMarker) = .ok sections ∧
      sections.filter (·.number = 4) = sections ∧
      sections.map Section.bytes = contents.map (encodeSection 4) := by
  induction contents generalizing offset with
  | nil => exact ⟨[], chain_endMarker offset, rfl, rfl⟩
  | cons c contents ih =>
    rw [List.forall_mem_cons] at short
    obtain ⟨sections, hsections, hnumbers, hbytes⟩ :=
      ih short.2 (offset + (encodeSection 4 c).length)
    rw [List.flatMap_cons, List.append_assoc, chain_encodeSection short.1, hsections]
    exact ⟨_, rfl, by simp [hnumbers], by simp [hbytes]⟩

namespace Message

def productSections (contents : List Bytes) : Bytes :=
  encodeSection 1 ((june 1).slice 21 16) ++
    (contents.flatMap (encodeSection 4) ++ Section.endMarker)

/-- A message of June 2023 with product definition sections of some contents. -/
def ofProducts (contents : List Bytes) : Bytes :=
  Indicator.magic ++ [0, 0, 0, 2] ++
    Bytes.ofWord 8 (Section.indicatorLength + (productSections contents).length) ++
    productSections contents

theorem length_ofProducts (contents : List Bytes) :
    (ofProducts contents).length = 16 + (productSections contents).length := by
  simp [ofProducts, Indicator.magic]
  omega

theorem drop_ofProducts (contents : List Bytes) :
    (ofProducts contents).drop Section.indicatorLength = productSections contents := by
  simp [ofProducts, Indicator.magic, Section.indicatorLength, Bytes.ofWord]

theorem length_productSections_le {contents : List Bytes} {k : Nat}
    (short : ∀ c ∈ contents, (encodeSection 4 c).length ≤ k) :
    (productSections contents).length ≤ 25 + k * contents.length := by
  have := Bytes.length_flatMap_le short
  simp only [productSections, List.length_append, length_encodeSection]
  simp only [june, Bytes.slice, Section.endMarker, List.drop_succ_cons, List.drop_zero,
    List.take_succ_cons, List.take_zero, List.length_cons, List.length_nil]
  omega

theorem whole_ofProducts {contents : List Bytes}
    (short : (productSections contents).length < 4294967296) : Whole (ofProducts contents) where
  magic := by simp [ofProducts]
  edition := rfl
  length := by
    refine Bytes.wordAt_eq (?_ : _ = Bytes.ofWord 8 (ofProducts contents).length) ?_
    · rw [length_ofProducts]
      simp [ofProducts, Indicator.magic, Bytes.slice, Section.indicatorLength, Bytes.ofWord]
    · rw [length_ofProducts]
      simp only [Nat.pow_eq]
      omega
  least := by
    simp only [length_ofProducts, productSections, List.length_append, Section.endMarker,
      List.length_cons, List.length_nil]
    omega
  marker := by
    simp only [ofProducts, productSections, ← List.append_assoc]
    exact List.suffix_append _ _

/-- Every product definition section makes an item, in their order. -/
theorem scan_ofProducts {contents : List Bytes}
    (short : ∀ c ∈ contents, (encodeSection 4 c).length ≤ 34) (nonempty : contents ≠ [])
    (few : contents.length < 100000000) (file : UInt32) :
    ∃ (source : Identification) (sections : List Section),
      sections.map Section.bytes = contents.map (encodeSection 4) ∧
      scan file (ofProducts contents) =
        sections.mapIdx (field file 0 (indicator (ofProducts contents)) source) := by
  have hlength := length_productSections_le short
  have whole : Whole (ofProducts contents) := whole_ofProducts (by omega)
  obtain ⟨sections, hchain, hnumbers, hbytes⟩ :=
    Section.chain_products (fun c hc => Nat.lt_of_le_of_lt (short c hc) (by decide)) 37
  have hsections : Section.ofMessage (ofProducts contents) =
      .ok (⟨1, 16, encodeSection 1 ((june 1).slice 21 16)⟩ :: sections) := by
    rw [Section.ofMessage, drop_ofProducts, productSections,
      Section.chain_encodeSection (by decide)]
    exact congrArg (Except.map _) hchain
  obtain ⟨source, hsource⟩ :
      ∃ source, Identification.read (encodeSection 1 ((june 1).slice 21 16)) = .ok source :=
    ⟨_, rfl⟩
  have hfirst : Section.withNumber 1 (⟨1, 16, encodeSection 1 ((june 1).slice 21 16)⟩ :: sections) =
      .ok ⟨1, 16, encodeSection 1 ((june 1).slice 21 16)⟩ := rfl
  have hproducts : (⟨1, 16, encodeSection 1 ((june 1).slice 21 16)⟩ :: sections).filter
      (·.number = 4) = sections := hnumbers
  have hsome : sections ≠ [] := by
    rintro rfl
    exact nonempty (List.map_eq_nil_iff.mp hbytes.symm)
  refine ⟨source, sections, hbytes, ?_⟩
  rw [whole.scan_eq, Frame.items, show (indicator (ofProducts contents)).length =
    (ofProducts contents).length from rfl, List.take_length, fields,
    if_neg (Nat.not_lt_of_le (Nat.le_trans (by decide) whole.least)), hsections]
  simp only [bind, Except.bind, hfirst, hsource, hproducts]

end Message

/-- The last of 65537 product definitions has the address of the first. -/
theorem addresses_shared_by_many_products :
    ¬ ∀ (file : UInt32) (bs : Bytes),
      ((ScanItem.fields (scan file bs)).map Field.address).Nodup := by
  intro distinct
  -- the sections between the two hold nothing, so that only the two make fields
  let readable : Bytes := (Message.june 1).slice 42 29
  obtain ⟨between, hbetween⟩ : ∃ between : Nat, between = 65535 := ⟨_, rfl⟩
  let contents := readable :: (List.replicate between [] ++ [readable])
  have short : ∀ c ∈ contents, (encodeSection 4 c).length ≤ 34 := by
    intro c hc
    simp only [contents, List.mem_cons, List.mem_append, List.mem_replicate,
      List.not_mem_nil, or_false] at hc
    rcases hc with rfl | ⟨-, rfl⟩ | rfl <;> decide
  have count : contents.length = between + 2 := by simp [contents]
  obtain ⟨source, sections, hbytes, hscan⟩ :=
    Message.scan_ofProducts short (List.cons_ne_nil _ _) (by omega) 0
  obtain ⟨product, hproduct⟩ : ∃ product, Product.read (encodeSection 4 readable) = .ok product :=
    ⟨_, rfl⟩
  have item (i : Nat) (hi : contents[i]? = some readable) :
      ∃ f, (scan 0 (Message.ofProducts contents))[i]? = some (.ok f) ∧ f.offset = 0 ∧
        f.index = UInt16.ofNat i := by
    have hsection := congrArg (·[i]?) hbytes
    simp only [List.getElem?_map, hi, Option.map_some] at hsection
    obtain ⟨s, hs, hread⟩ := Option.map_eq_some_iff.mp hsection
    have hfield := congrArg (Option.map (Message.field 0 0
      (Message.indicator (Message.ofProducts contents)) source i)) hs
    rw [Option.map_some, Message.field, hread, hproduct] at hfield
    rw [hscan, List.getElem?_mapIdx, hfield]
    exact ⟨_, rfl, rfl, rfl⟩
  obtain ⟨f, hf, hf0, hfi⟩ := item 0 rfl
  obtain ⟨g, hg, hg0, hgi⟩ := item (between + 1) (by simp [contents])
  have apart := ScanItem.nodup_addresses_iff.mp (distinct 0 (Message.ofProducts contents))
  rw [List.pairwise_iff_getElem] at apart
  obtain ⟨hi, hif⟩ := List.getElem?_eq_some_iff.mp hf
  obtain ⟨hj, hjg⟩ := List.getElem?_eq_some_iff.mp hg
  refine apart 0 (between + 1) hi hj (Nat.succ_pos between) f hif g hjg ?_
  rw [Field.address, Field.address, hf0, hg0, hfi, hgi, hbetween]
  rfl

end GribCatalog
