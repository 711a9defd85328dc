import GribCatalog.Proofs.Address
import GribCatalog.Proofs.Build
import GribCatalog.Proofs.Cells

/-! Looking up. What answers for a tuple is an entry with that tuple, an entry of a
built space comes from a record with the values that its tuple stands for, and the
bytes that it points at hold a field with these values. -/

namespace GribCatalog

namespace Space

theorem mem_of_entryAt? {s : Space} (cells : s.cells = Cell.ofEntries s.policy s.entries)
    {indices : List Nat} {e : Entry} (h : s.entryAt? indices = some e) :
    e ∈ s.entries ∧ e.indices = indices := by
  obtain ⟨hmem, hindices⟩ := List.mem_filter.mp (wins_of_entryAt? cells h).mem
  exact ⟨hmem, of_decide_eq_true hindices⟩

theorem find?_eq_some {s : Space} (cells : s.cells = Cell.ofEntries s.policy s.entries)
    {values : List AxisValue} {e : Entry} (h : s.find? values = some e) :
    e ∈ s.entries ∧ s.indicesOf? values = some e.indices := by
  obtain ⟨indices, hindices, hentry⟩ := Option.bind_eq_some_iff.mp h
  obtain ⟨hmem, rfl⟩ := mem_of_entryAt? cells hentry
  exact ⟨hmem, hindices⟩

end Space

variable {ρ : Type}

namespace Resolution

/-- A record whose indices are those of some values has these values. -/
theorem values_of_found {dimensions : List (Dimension ρ)} {axes : List Axis} {r : ρ}
    {values : List AxisValue} {indices : List Nat} (arity : axes.length = dimensions.length)
    (found : ofRecord r (dimensions.zip axes) = .found indices)
    (length : values.length = axes.length)
    (mapped : (values.zip axes).mapM (fun (v, a) => a.index? v) = some indices) :
    dimensions.map (·.extract r) = values.map .ok := by
  rw [ofRecord_eq_found_iff] at found
  induction dimensions generalizing axes values indices with
  | nil =>
    obtain rfl := List.length_eq_zero_iff.mp arity
    obtain rfl := List.length_eq_zero_iff.mp length
    rfl
  | cons d dimensions ih =>
    obtain ⟨a, axes, rfl⟩ := List.exists_cons_of_length_eq_add_one arity
    obtain ⟨v, values, rfl⟩ := List.exists_cons_of_length_eq_add_one length
    obtain ⟨i, rest, ⟨w, hw, hi⟩, hrest, rfl⟩ := List.forall₂_cons_left_iff.mp found
    simp only [List.zip_cons_cons, List.mapM_cons, Option.bind_eq_bind,
      Option.bind_eq_some_iff, Option.pure_def, Option.some.injEq, List.cons.injEq] at mapped
    obtain ⟨j, hj, js, hjs, rfl, rfl⟩ := mapped
    have hv : some v = some w :=
      (Axis.getElem?_of_lastIndex? hj).symm.trans (Axis.getElem?_of_lastIndex? hi)
    cases hv
    rw [List.map_cons, List.map_cons, hw,
      ih (Nat.succ.inj arity) hrest (Nat.succ.inj length) hjs]

end Resolution

variable [Located ρ]

namespace Space

theorem of_build {dimensions : List (Dimension ρ)} {records : List ρ} {options : BuildOptions}
    {s : Space} {report : Report} (h : build dimensions records options = .ok (s, report)) :
    s.axes.length = dimensions.length ∧ s.cells = Cell.ofEntries s.policy s.entries ∧
      ∀ e ∈ s.entries, ∃ r ∈ records, e.location = Located.location r ∧
        Resolution.ofRecord r (dimensions.zip s.axes) = .found e.indices := by
  obtain ⟨-, -, h⟩ := Except.bind_eq_ok_iff.mp h
  obtain ⟨survey, hsurvey, h⟩ := Except.bind_eq_ok_iff.mp h
  unfold Survey.start at hsurvey
  split at hsurvey
  · cases hsurvey
  cases hsurvey
  generalize hp : (Survey.accumulateBatch _ options records).finish options = p at h
  obtain rfl : (records.foldl Placement.assign p).publish.1 = s :=
    congrArg Prod.fst (Except.ok.inj h)
  have hdimensions : p.dimensions = dimensions := by
    simp [← hp, Survey.finish, Survey.gatherings_accumulateBatch, Function.comp_def]
  have hlength : p.axes.length = dimensions.length := by
    simp [← hp, Survey.finish, Survey.gatherings_accumulateBatch]
  have haxes : (records.foldl Placement.assign p).publish.1.axes = p.axes :=
    Placement.foldl_assign_axes records p
  refine ⟨haxes ▸ hlength, rfl, fun e he => ?_⟩
  rcases Placement.mem_foldl_assign he with he | hr
  · rw [← hp] at he
    cases he
  · rw [haxes, ← hdimensions]
    exact hr

/-- A look-up in a built space finds the place of a record that has the values looked up. -/
theorem exists_record_of_find? {dimensions : List (Dimension ρ)} {records : List ρ}
    {options : BuildOptions} {s : Space} {report : Report}
    (built : build dimensions records options = .ok (s, report)) {values : List AxisValue}
    {e : Entry} (h : s.find? values = some e) :
    ∃ r ∈ records, e.location = Located.location r ∧
      dimensions.map (·.extract r) = values.map .ok := by
  obtain ⟨arity, cells, hentries⟩ := of_build built
  obtain ⟨hmem, hindices⟩ := find?_eq_some cells h
  obtain ⟨r, hr, hlocation, hfound⟩ := hentries e hmem
  refine ⟨r, hr, hlocation, ?_⟩
  unfold indicesOf? at hindices
  split at hindices
  · next hlength => exact Resolution.values_of_found arity hfound hlength hindices
  · cases hindices

end Space

/-- A field's values do not depend on where its bytes are. -/
theorem FieldDimension.extract_congr (d : FieldDimension) (f : Field) (file : UInt32)
    (offset : Nat) : d.extract { f with file, offset } = d.extract f := by
  cases d <;> rfl

/-- What a look-up finds points at bytes inside of the data, and scanning these alone yields one
field of its index, which has the values looked up. -/
theorem scan_of_find {ds : List FieldDimension} {options : BuildOptions} {file : UInt32}
    {bs : Bytes} {s : Space} {report : Report}
    (few : ∀ f ∈ ScanItem.fields (scan file bs),
      Message.products (bs.slice f.offset f.length) < 65536)
    (built : Space.build (ds.map FieldDimension.dimension) (ScanItem.fields (scan file bs))
      options = .ok (s, report))
    {values : List AxisValue} {e : Entry} (found : s.find? values = some e) (file' : UInt32) :
    let alone := ScanItem.fields (scan file' (bs.slice e.location.offset e.location.length))
    e.location.offset + e.location.length ≤ bs.length ∧
      ∃ f ∈ alone, f.index = e.location.field ∧ ds.map (·.extract f) = values.map .ok ∧
        ∀ g ∈ alone, g.index = e.location.field → g = f := by
  obtain ⟨r, hr, hlocation, hvalues⟩ := Space.exists_record_of_find? built found
  have hfew := few r hr
  obtain ⟨hrange, whole, hmem⟩ := scan_slice hr file'
  rw [hlocation]
  refine ⟨hrange, _, hmem, rfl, ?_, fun g hg hindex => whole.eq_of_index hfew hg hmem hindex⟩
  rw [← hvalues, List.map_map]
  exact List.map_congr_left fun d _ => d.extract_congr r file' 0

/-- A forecast that is given twice behind two stray bytes: the second of them is found. -/
theorem scan_of_find_repeated :
    let message : Bytes :=
      [0x47, 0x52, 0x49, 0x42, 0, 0, 0, 2, 0, 0, 0, 0, 0, 0, 0, 75,
        0, 0, 0, 21, 1, 0, 98, 0, 0, 2, 1, 1, 7, 231, 6, 1, 0, 0, 0, 0, 1,
        0, 0, 0, 34, 4, 0, 0, 0, 0, 0, 5, 2, 0, 0, 0, 0, 0, 1, 0, 0, 0, 12,
        100, 0, 0, 0, 1, 244, 255, 0, 0, 0, 0, 0, 0x37, 0x37, 0x37, 0x37]
    let bs := [1, 2] ++ message ++ message
    let ds := [FieldDimension.time .hour, .runtime]
    let values := [AxisValue.offset 12, .runtime ⟨1685577600, 0⟩]
    let alone := ScanItem.fields (scan 7 (bs.slice 77 75))
    (∀ f ∈ ScanItem.fields (scan 0 bs),
      Message.products (bs.slice f.offset f.length) < 65536) ∧
    ∃ s report, Space.build (ds.map FieldDimension.dimension) (ScanItem.fields (scan 0 bs)) {} =
        .ok (s, report) ∧
      s.find? values = some ⟨1, ⟨0, 77, 75, 0⟩, [0, 0]⟩ ∧ 77 + 75 ≤ bs.length ∧
      ∃ f ∈ alone, f.index = 0 ∧ ds.map (·.extract f) = values.map .ok ∧
        ∀ g ∈ alone, g.index = 0 → g = f := by
  intro message bs ds values alone
  have few : ∀ f ∈ ScanItem.fields (scan 0 bs),
      Message.products (bs.slice f.offset f.length) < 65536 := by decide +kernel
  have built := @Space.build_eq _ _ (ds.map FieldDimension.dimension)
    (ScanItem.fields (scan 0 bs)) {} (List.cons_ne_nil _ _) rfl (by decide +kernel)
  have hit : (Space.ofRecords (ds.map FieldDimension.dimension) (ScanItem.fields (scan 0 bs))
      .lastWins).find? values = some ⟨1, ⟨0, 77, 75, 0⟩, [0, 0]⟩ := by decide +kernel
  exact ⟨few, _, _, built, hit, scan_of_find few built hit 7⟩

end GribCatalog
