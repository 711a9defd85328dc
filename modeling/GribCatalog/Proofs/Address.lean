import GribCatalog.Proofs.Scan

/-! A field's address. The bytes from a field's offset on, as many as its length
says, are the whole message that it was read from, and scanning them alone yields
the field again. -/

namespace GribCatalog

/-- Every section takes five bytes at least, and the end marker four. -/
theorem Section.length_of_chain {offset : Nat} {rest : Bytes} {sections : List Section}
    (h : chain offset rest = .ok sections) : 5 * sections.length + 4 ≤ rest.length := by
  fun_induction chain offset rest generalizing sections with
  | case1 offset rest hmarker =>
    cases h
    have := congrArg List.length hmarker
    simp only [List.length_take, endMarker, List.length_cons, List.length_nil] at this
    simp only [List.length_nil]
    omega
  | case2 => cases h
  | case3 => cases h
  | case4 =>
    rename_i ih
    obtain ⟨tail, htail, rfl⟩ := Except.map_eq_ok_iff.mp h
    have := ih htail
    simp only [List.length_drop, List.length_cons] at this ⊢
    omega

namespace Message

theorem least_of_fields {file : UInt32} {offset : Nat} {indicator : Indicator} {m : Bytes}
    {items : List ScanItem} (h : fields file offset indicator m = .ok items) : 20 ≤ m.length := by
  unfold fields at h
  split at h
  · cases h
  · next hlen =>
    obtain ⟨sections, hs, -⟩ := Except.bind_eq_ok_iff.mp h
    have := Section.length_of_chain hs
    simp only [Section.indicatorLength, List.length_drop] at *
    omega

/-- The items of a message are its product definition sections, one after the other, with one
identification for them all. -/
theorem fields_eq_ok {file : UInt32} {offset : Nat} {indicator : Indicator} {m : Bytes}
    {items : List ScanItem} (h : fields file offset indicator m = .ok items) :
    ∃ sections source, Section.ofMessage m = .ok sections ∧
      (∃ bs, Identification.read bs = .ok source) ∧
      items = (sections.filter (·.number = 4)).mapIdx (field file offset indicator source) := by
  unfold fields at h
  split at h
  · cases h
  · obtain ⟨sections, hs, h⟩ := Except.bind_eq_ok_iff.mp h
    obtain ⟨first, -, h⟩ := Except.bind_eq_ok_iff.mp h
    obtain ⟨source, hsource, h⟩ := Except.bind_eq_ok_iff.mp h
    refine ⟨sections, source, hs, ⟨_, hsource⟩, ?_⟩
    split at h <;> cases h
    rfl

theorem field_eq_ok {file : UInt32} {offset : Nat} {indicator : Indicator}
    {source : Identification} {index : Nat} {s : Section} {f : Field}
    (h : field file offset indicator source index s = .ok f) :
    f.offset = offset ∧ f.length = indicator.length ∧ f.index = UInt16.ofNat index := by
  obtain ⟨product, -, rfl⟩ := Except.map_eq_ok_iff.mp h
  exact ⟨rfl, rfl, rfl⟩

end Message

theorem Indicator.of_read {offset : Nat} {bs : Bytes} {indicator : Indicator}
    (h : read offset bs = .ok indicator) (edition : indicator.edition = 2) :
    magic <+: bs ∧ bs.byteAt 7 = 2 ∧ indicator = ⟨bs.byteAt 6, 2, bs.wordAt 8 8⟩ := by
  unfold read at h
  split at h
  · cases h
  split at h
  · cases h
  next hmagic =>
  split at h
  · cases h
    cases edition
  split at h
  · next he =>
    split at h
    · cases h
    · cases h
      have := List.take_prefix 4 bs
      exact ⟨Decidable.of_not_not hmagic ▸ this, he, rfl⟩
  · cases h

theorem Frame.of_ofBytes {offset : Nat} {bs : Bytes} {indicator : Indicator}
    (h : ofBytes offset bs = .message indicator) :
    Indicator.read offset bs = .ok indicator ∧ indicator.edition = 2 ∧
      indicator.length ≤ bs.length ∧
      bs.slice (indicator.length - 4) 4 = Section.endMarker := by
  unfold ofBytes at h
  split at h
  · cases h
  next hread =>
  split at h
  · cases h
  split at h
  · cases h
  next hlen =>
  split at h
  · cases h
  next hedition =>
  split at h
  · cases h
  next hmarker =>
  cases h
  exact ⟨hread, Decidable.of_not_not hedition, Nat.le_of_not_lt hlen,
    Decidable.of_not_not hmarker⟩

theorem Frame.whole_of_message {offset : Nat} {m rest : Bytes} {indicator : Indicator}
    (h : ofBytes offset (m ++ rest) = .message indicator) (length : indicator.length = m.length)
    (least : 20 ≤ m.length) : Message.Whole m ∧ indicator = Message.indicator m := by
  obtain ⟨hread, hedition, -, hmarker⟩ := of_ofBytes h
  obtain ⟨hmagic, hbyte, heq⟩ := Indicator.of_read hread hedition
  rw [Bytes.byteAt_append (by omega)] at hbyte
  rw [Bytes.byteAt_append (by omega), Bytes.wordAt, Bytes.slice_append (by omega)] at heq
  rw [Bytes.slice_append (by omega), Bytes.slice] at hmarker
  refine ⟨⟨?_, hbyte, ?_, least, ?_⟩, ?_⟩
  · refine List.prefix_of_prefix_length_le hmagic (List.prefix_append m rest) ?_
    exact Nat.le_trans (by decide) least
  · rw [← length, heq]
    rfl
  · rw [← hmarker, List.take_of_length_le]
    · exact List.drop_suffix _ m
    · simp only [List.length_drop]
      omega
  · rw [Message.indicator, ← length, heq]

theorem Frame.mem_items {file : UInt32} {offset : Nat} {bs : Bytes} {f : Field}
    (h : .ok f ∈ (ofBytes offset bs).items file offset bs) :
    ∃ m after, bs = m ++ after ∧ f.offset = offset ∧ f.length = m.length ∧ Message.Whole m ∧
      .ok f ∈ (scan file m).map (ScanItem.shift offset) := by
  cases hframe : ofBytes offset bs with
  | broken fault => rw [hframe] at h; simp [items] at h
  | otherEdition fault length => rw [hframe] at h; simp [items] at h
  | message indicator =>
    obtain ⟨m, after, rfl, hlen⟩ : ∃ m after, bs = m ++ after ∧ indicator.length = m.length :=
      ⟨_, _, (List.take_append_drop indicator.length bs).symm,
        (List.length_take_of_le (of_ofBytes hframe).2.2.1).symm⟩
    rw [hframe] at h
    simp only [items, hlen, List.take_left] at h
    cases hfields : Message.fields file offset indicator m with
    | error fault => rw [hfields] at h; simp at h
    | ok fields =>
      rw [hfields] at h
      obtain ⟨sections, source, -, -, hmap⟩ := Message.fields_eq_ok hfields
      obtain ⟨i, hi, hfield⟩ := List.mem_mapIdx.mp (hmap ▸ h)
      obtain ⟨hoffset, hlength, -⟩ := Message.field_eq_ok hfield
      obtain ⟨whole, rfl⟩ := whole_of_message hframe hlen (Message.least_of_fields hfields)
      refine ⟨m, after, rfl, hoffset, by rw [hlength, hlen], whole, ?_⟩
      have hmoved := items_moved id offset file 0 m (.message (Message.indicator m))
      rw [whole.scan_eq, ScanItem.shift, ← hmoved]
      simp only [shift, items, hlen, List.take_length, id, Nat.add_zero, hfields]
      exact h

/-- The place of a field that is met from byte `offset` of a file on. -/
theorem mem_scanFrom {file : UInt32} {offset : Nat} {bs : Bytes} {f : Field}
    (h : .ok f ∈ scanFrom file offset bs) :
    ∃ before m after, bs = before ++ m ++ after ∧ f.offset = offset + before.length ∧
      f.length = m.length ∧ Message.Whole m ∧
      .ok f ∈ (scan file m).map (ScanItem.shift f.offset) := by
  induction hn : bs.length using Nat.strongRecOn generalizing bs offset with
  | _ n ih =>
    cases hs : Bytes.seek? Indicator.magic 0 bs with
    | none =>
      rw [scanFrom_of_none hs] at h
      cases h
    | some found =>
      obtain ⟨skipped, rest⟩ := found
      have hlen := Bytes.seek?_length hs
      have hpos := Frame.length_pos (offset + skipped) rest
      obtain ⟨-, rfl⟩ := (Bytes.seek?_eq_some_iff (by decide)).mp hs
      rw [scanFrom_of_some hs] at h
      -- the field is met in the first frame, or in the bytes after it
      rcases List.mem_append.mp h with h | h
      · obtain ⟨m, after, hbs, hoffset, hlength, whole, hmem⟩ := Frame.mem_items h
        have hk := congrArg List.length hbs
        have := whole.least
        simp only [List.length_drop, List.length_append] at hk
        refine ⟨bs.take skipped, m, after, ?_, ?_, hlength, whole, hoffset ▸ hmem⟩
        · rw [List.append_assoc, ← hbs, List.take_append_drop]
        · rw [hoffset, List.length_take]
          omega
      · generalize (Frame.ofBytes (offset + skipped) (bs.drop skipped)).length = k at *
        obtain ⟨before, m, after, hbs, hoffset, hlength, whole, hmem⟩ :=
          ih _ (by simp only [List.length_drop] at *; omega) h rfl
        have hk := congrArg List.length hbs
        have := whole.least
        simp only [List.length_drop, List.length_append] at hk
        refine ⟨bs.take (skipped + k) ++ before, m, after, ?_, ?_, hlength, whole, hmem⟩
        · rw [List.append_assoc, List.append_assoc, ← List.append_assoc before, ← hbs,
            List.drop_drop, List.take_append_drop]
        · simp only [List.length_append, List.length_take]
          omega

/-! ### The bytes of a field -/

theorem ScanItem.mem_fields {items : List ScanItem} {f : Field} :
    f ∈ fields items ↔ .ok f ∈ items := by
  rw [fields, List.mem_filterMap]
  constructor
  · rintro ⟨item, hitem, h⟩
    cases item with
    | error e => cases h
    | ok g =>
      cases h
      exact hitem
  · exact fun h => ⟨_, h, rfl⟩

namespace ScanItem

@[simp] theorem fields_ok (f : Field) (items : List ScanItem) :
    fields (.ok f :: items) = f :: fields items := rfl

@[simp] theorem fields_error (e : ScanFault) (items : List ScanItem) :
    fields (.error e :: items) = fields items := rfl

@[simp] theorem faults_ok (f : Field) (items : List ScanItem) :
    faults (.ok f :: items) = faults items := rfl

@[simp] theorem faults_error (e : ScanFault) (items : List ScanItem) :
    faults (.error e :: items) = e :: faults items := rfl

theorem fields_map_moved (renumber : UInt32 → UInt32) (k : Nat) (items : List ScanItem) :
    fields (items.map (moved renumber k)) = (fields items).map (Field.moved renumber k) := by
  induction items with
  | nil => rfl
  | cons item items ih => cases item <;> simp [moved, ih]

theorem faults_map_moved (renumber : UInt32 → UInt32) (k : Nat) (items : List ScanItem) :
    faults (items.map (moved renumber k)) = (faults items).map (ScanFault.shift k) := by
  induction items with
  | nil => rfl
  | cons item items ih => cases item <;> simp [moved, ih]

end ScanItem

theorem scan_eq_map (file : UInt32) (bs : Bytes) :
    scan file bs = (scan 0 bs).map (ScanItem.moved (fun _ => file) 0) :=
  scanFrom_moved (fun _ => file) 0 0 0 bs

theorem Field.file_of_mem_scan {file : UInt32} {bs : Bytes} {f : Field}
    (h : f ∈ ScanItem.fields (scan file bs)) : f.file = file := by
  rw [scan_eq_map, ScanItem.fields_map_moved] at h
  obtain ⟨g, -, rfl⟩ := List.mem_map.mp h
  rfl

theorem Bytes.slice_middle (before m after : Bytes) :
    Bytes.slice (before ++ m ++ after) before.length m.length = m := by
  rw [slice, List.append_assoc, List.drop_left, List.take_left]

/-- A field stands in its file where its address says, on a whole message, and it is found again
in the bytes of the message alone. -/
theorem scan_slice {file : UInt32} {bs : Bytes} {f : Field}
    (h : f ∈ ScanItem.fields (scan file bs)) (alone : UInt32) :
    f.offset + f.length ≤ bs.length ∧ Message.Whole (bs.slice f.offset f.length) ∧
      { f with file := alone, offset := 0 } ∈
        ScanItem.fields (scan alone (bs.slice f.offset f.length)) := by
  obtain ⟨before, m, after, rfl, hoffset, hlength, whole, hmem⟩ :=
    mem_scanFrom (ScanItem.mem_fields.mp h)
  rw [Nat.zero_add] at hoffset
  have hslice : Bytes.slice (before ++ m ++ after) f.offset f.length = m := by
    rw [hoffset, hlength, Bytes.slice_middle]
  rw [hslice]
  refine ⟨by simp only [List.length_append]; omega, whole, ?_⟩
  obtain ⟨item, hitem, hshift⟩ := List.mem_map.mp hmem
  cases item with
  | error e => cases hshift
  | ok g =>
    have hg : g.moved id f.offset = f := Except.ok.inj hshift
    have hzero : g.offset = 0 := by
      have := congrArg Field.offset hg
      simp only [Field.moved] at this
      omega
    have hmoved : g.moved (fun _ => alone) 0 = { f with file := alone, offset := 0 } := by
      rw [← hg]
      simp [Field.moved, hzero]
    have hscan : scan alone m = (scan file m).map (ScanItem.moved (fun _ => alone) 0) :=
      scanFrom_moved (fun _ => alone) 0 file 0 m
    rw [ScanItem.mem_fields, ← hmoved, hscan]
    exact List.mem_map_of_mem hitem

namespace Message

def products (m : Bytes) : Nat :=
  match Section.ofMessage m with
  | .ok sections => (sections.filter (·.number = 4)).length
  | .error _ => 0

theorem Whole.exists_index {m : Bytes} (whole : Whole m) {file : UInt32} {f : Field}
    (h : f ∈ ScanItem.fields (scan file m)) :
    ∃ i < products m, (scan file m)[i]? = some (.ok f) ∧ f.index = UInt16.ofNat i := by
  have hmem := ScanItem.mem_fields.mp h
  have hscan : scan file m = (Frame.message (indicator m)).items file 0 m := whole.scan_eq file
  rw [Frame.items, show (indicator m).length = m.length from rfl, List.take_length] at hscan
  cases hfields : fields file 0 (indicator m) m with
  | error fault =>
    rw [hscan, hfields] at hmem
    simp at hmem
  | ok items =>
    rw [hfields] at hscan
    rw [hscan] at hmem ⊢
    obtain ⟨sections, source, hsections, -, rfl⟩ := fields_eq_ok hfields
    obtain ⟨i, hi, hfield⟩ := List.mem_mapIdx.mp hmem
    refine ⟨i, ?_, ?_, (field_eq_ok hfield).2.2⟩
    · rw [products, hsections]
      exact hi
    · rw [List.getElem?_mapIdx, List.getElem?_eq_getElem hi, Option.map_some, hfield]

theorem Whole.eq_of_index {m : Bytes} (whole : Whole m) (few : products m < 65536)
    {file : UInt32} {f g : Field} (hf : f ∈ ScanItem.fields (scan file m))
    (hg : g ∈ ScanItem.fields (scan file m)) (same : f.index = g.index) : f = g := by
  obtain ⟨i, hi, hif, hindex⟩ := whole.exists_index hf
  obtain ⟨j, hj, hjg, hindex'⟩ := whole.exists_index hg
  have hij : UInt16.ofNat i = UInt16.ofNat j := hindex.symm.trans (same.trans hindex')
  have : i = j := by
    have := congrArg UInt16.toNat hij
    simp only [UInt16.toNat_ofNat'] at this
    omega
  subst this
  rw [hif] at hjg
  cases hjg
  rfl

end Message

end GribCatalog
