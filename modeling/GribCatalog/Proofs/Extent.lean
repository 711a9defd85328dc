import GribCatalog.Proofs.Frames

/-! What a scan of any bytes yields. Every field stands on a complete message of the
file, the messages of two fields are the same or apart, and the items come in the order
of their places. All of it is read off the stops of the scan, which do not overlap. -/

namespace GribCatalog

/-- The byte of the file that a fault names. -/
def ScanFault.place? : ScanFault → Option Nat
  | frame offset _ => some offset
  | edition _ offset => some offset
  | truncated offset _ _ => some offset
  | _ => none

theorem ScanFault.place?_of_not_isPlaced {e : ScanFault} (h : e.isPlaced = false) :
    e.place? = none := by
  cases e <;> first | rfl | cases h

/-- The byte of the file that an item names: the start of its message, if it names any. -/
def ScanItem.place? : ScanItem → Option Nat
  | .ok f => some f.offset
  | .error e => e.place?

theorem Indicator.place?_of_read {offset : Nat} {bs : Bytes} {e : ScanFault}
    (h : read offset bs = .error e) : e.place? = some offset := by
  unfold read at h
  split at h
  · cases h; rfl
  split at h
  · cases h; rfl
  split at h
  · cases h
  split at h
  · split at h <;> cases h
    rfl
  · cases h; rfl

namespace Message

variable {file : UInt32} {offset : Nat} {indicator : Indicator}

theorem place?_of_fields {m : Bytes} {e : ScanFault}
    (h : fields file offset indicator m = .error e) : e.place? = some offset ∨ e.place? = none := by
  unfold fields at h
  split at h
  · cases h; exact .inl rfl
  refine .inr (ScanFault.place?_of_not_isPlaced ?_)
  cases hs : Section.ofMessage m with
  | error e' =>
    rw [hs] at h
    cases h
    exact Section.isPlaced_of_chain hs
  | ok sections =>
    cases hf : Section.withNumber 1 sections with
    | error e' =>
      simp only [hs, Bind.bind, Except.bind, hf] at h
      cases h
      exact Section.isPlaced_of_withNumber hf
    | ok first =>
      cases hr : Identification.read first.bytes with
      | error e' =>
        simp only [hs, Bind.bind, Except.bind, hf, hr] at h
        cases h
        exact Identification.isPlaced_of_read hr
      | ok source =>
        simp only [hs, Bind.bind, Except.bind, hf, hr] at h
        split at h <;> cases h
        rfl

theorem place?_of_field {source : Identification} {index : Nat} {s : Section} {item : ScanItem}
    (h : field file offset indicator source index s = item) :
    item.place? = some offset ∨ item.place? = none := by
  subst h
  unfold field
  cases hr : Product.read s.bytes with
  | ok product => exact .inl rfl
  | error e => exact .inr (ScanFault.place?_of_not_isPlaced (Product.isPlaced_of_read hr))

end Message

theorem Frame.place?_of_ofBytes {offset : Nat} {bs : Bytes} {fault : ScanFault}
    (h : ofBytes offset bs = .broken fault ∨ ∃ n, ofBytes offset bs = .otherEdition fault n) :
    fault.place? = some offset := by
  unfold ofBytes at h
  split at h
  · next hread =>
    rcases h with h | ⟨n, h⟩ <;> cases h
    exact Indicator.place?_of_read hread
  · repeat' split at h
    all_goals rcases h with h | ⟨n, h⟩ <;> cases h
    all_goals rfl

namespace Stop

variable {file : UInt32} {s : Stop}

/-- What a stop yields: one fault, which names the place of the stop or none, or the fields of the
message that stands there, one for every product definition section. -/
theorem items_cases (file : UInt32) (s : Stop) :
    (∃ fault, s.items file = [.error fault] ∧
      (fault.place? = some s.place ∨ fault.place? = none)) ∨
    ∃ indicator source sections, s.frame = .message indicator ∧
      Section.ofMessage (s.bytes.take indicator.length) = .ok sections ∧
      (∃ bs, Identification.read bs = .ok source) ∧
      s.items file =
        (sections.filter (·.number = 4)).mapIdx (Message.field file s.place indicator source) := by
  rw [items, frame]
  cases hframe : Frame.ofBytes s.place s.bytes with
  | broken fault => exact .inl ⟨fault, rfl, .inl (Frame.place?_of_ofBytes (.inl hframe))⟩
  | otherEdition fault length =>
    exact .inl ⟨fault, rfl, .inl (Frame.place?_of_ofBytes (.inr ⟨length, hframe⟩))⟩
  | message indicator =>
    rw [Frame.items]
    cases hfields :
        Message.fields file s.place indicator (s.bytes.take indicator.length) with
    | error fault => exact .inl ⟨fault, rfl, Message.place?_of_fields hfields⟩
    | ok found =>
      obtain ⟨sections, source, hsections, hsource, hfound⟩ := Message.fields_eq_ok hfields
      exact .inr ⟨indicator, source, sections, rfl, hsections, hsource, hfound⟩

/-- The items of a stop name its place or none. -/
theorem place?_of_mem_items {item : ScanItem} (h : item ∈ s.items file) :
    item.place? = some s.place ∨ item.place? = none := by
  rcases items_cases file s with ⟨fault, hitems, hplace⟩ | ⟨_, _, _, -, -, -, hitems⟩
  · rw [hitems, List.mem_singleton] at h
    exact h ▸ hplace
  · obtain ⟨i, hi, hfield⟩ := List.mem_mapIdx.mp (hitems ▸ h)
    exact Message.place?_of_field hfield

theorem finish_of_mem_items {f : Field} (h : .ok f ∈ s.items file) :
    f.offset + f.length = s.finish := by
  rcases items_cases file s with ⟨fault, hitems, -⟩ | ⟨indicator, source, _, hframe, -, -, hitems⟩
  · rw [hitems] at h
    simp at h
  · obtain ⟨i, hi, hfield⟩ := List.mem_mapIdx.mp (hitems ▸ h)
    obtain ⟨hoffset, hlength, -⟩ := Message.field_eq_ok hfield
    rw [hoffset, hlength, finish, hframe, Frame.length]

end Stop

theorem eq_of_place_eq {offset : Nat} {bs : Bytes} {s t : Stop} (hs : s ∈ stopsFrom offset bs)
    (ht : t ∈ stopsFrom offset bs) (h : s.place = t.place) : s = t := by
  obtain ⟨i, rfl, -⟩ := bytes_of_mem_stopsFrom hs
  obtain ⟨j, rfl, -⟩ := bytes_of_mem_stopsFrom ht
  obtain rfl : i = j := Nat.add_left_cancel h
  rfl

/-- A field is met at a stop of the scan, which it spans. -/
theorem exists_stop_of_mem_scan {file : UInt32} {bs : Bytes} {f : Field}
    (h : f ∈ ScanItem.fields (scan file bs)) :
    ∃ s ∈ stopsFrom 0 bs, f.offset = s.place ∧ f.offset + f.length = s.finish := by
  rw [ScanItem.mem_fields, scan, scanFrom_eq_flatMap] at h
  obtain ⟨s, hs, hitem⟩ := List.mem_flatMap.mp h
  exact ⟨s, hs, Stop.offset_of_mem_items hitem, Stop.finish_of_mem_items hitem⟩

/-- The items of a scan come in the order of the places that they name. -/
theorem pairwise_place?_scan (file : UInt32) (bs : Bytes) :
    ((scan file bs).filterMap ScanItem.place?).Pairwise (· ≤ ·) := by
  rw [List.pairwise_filterMap, scan, scanFrom_eq_flatMap, List.pairwise_flatMap]
  constructor
  · intro s _
    refine List.pairwise_of_forall_mem_list fun x hx y hy p hp q hq => ?_
    rcases Stop.place?_of_mem_items hx with h | h <;> rw [h] at hp <;> cases hp
    rcases Stop.place?_of_mem_items hy with h | h <;> rw [h] at hq <;> cases hq
    exact Nat.le_refl _
  · refine (pairwise_stopsFrom 0 bs).imp fun {s t} hst x hx y hy p hp q hq => ?_
    rcases Stop.place?_of_mem_items hx with h | h <;> rw [h] at hp <;> cases hp
    rcases Stop.place?_of_mem_items hy with h | h <;> rw [h] at hq <;> cases hq
    exact Nat.le_trans (Nat.le_of_lt s.place_lt_finish) hst

/-- Whatever the bytes are: a field lies inside of them, on a message that starts with the magic,
is of edition 2, declares the length of the field and ends with the end marker. Two fields are on
the same bytes or apart, and no item names a place before the one of an earlier item. -/
theorem scan_extents (file : UInt32) (bs : Bytes) :
    (∀ f ∈ ScanItem.fields (scan file bs),
      let m := bs.slice f.offset f.length
      f.offset + f.length ≤ bs.length ∧ Indicator.magic <+: m ∧ m.byteAt 7 = 2 ∧
        m.wordAt 8 8 = f.length ∧ Section.endMarker <:+ m) ∧
    (∀ f ∈ ScanItem.fields (scan file bs), ∀ g ∈ ScanItem.fields (scan file bs),
      (f.offset = g.offset ∧ f.length = g.length) ∨ f.offset + f.length ≤ g.offset ∨
        g.offset + g.length ≤ f.offset) ∧
    ((scan file bs).filterMap ScanItem.place?).Pairwise (· ≤ ·) := by
  refine ⟨fun f hf => ?_, fun f hf g hg => ?_, pairwise_place?_scan file bs⟩
  · obtain ⟨hinside, whole, -⟩ := scan_slice hf file
    have hlength : (bs.slice f.offset f.length).length = f.length := by
      rw [Bytes.slice, List.length_take, List.length_drop]
      omega
    exact ⟨hinside, whole.magic, whole.edition, whole.length.trans hlength, whole.marker⟩
  · obtain ⟨s, hs, hplace, hfinish⟩ := exists_stop_of_mem_scan hf
    obtain ⟨t, ht, hplace', hfinish'⟩ := exists_stop_of_mem_scan hg
    rcases Nat.lt_trichotomy s.place t.place with hlt | heq | hgt
    · have := finish_le_of_mem_stopsFrom hs ht hlt
      omega
    · obtain rfl := eq_of_place_eq hs ht heq
      omega
    · have := finish_le_of_mem_stopsFrom ht hs hgt
      omega

end GribCatalog
