import GribCatalog.Proofs.Build
import GribCatalog.Proofs.Snapshot

/-! Extending a space. An extension by more records comes to the space of all the
records, so any chain of extensions, written out and restored on the way or not,
comes to one build. -/

namespace GribCatalog

variable {ρ : Type}

theorem mapM_filterMap {α β γ ε : Type} {f : α → Option β} {g : α → Option γ} {h : β → Except ε γ}
    {l : List α} (same : ∀ a ∈ l, (f a = none ∧ g a = none) ∨
      ∃ b c, f a = some b ∧ g a = some c ∧ h b = .ok c) :
    (l.filterMap f).mapM h = .ok (l.filterMap g) := by
  induction l with
  | nil => rfl
  | cons a l ih =>
    rw [List.forall_mem_cons] at same
    obtain ⟨hf, hg⟩ | ⟨b, c, hf, hg, hh⟩ := same.1
    · rw [List.filterMap_cons_none hf, List.filterMap_cons_none hg, ih same.2]
    · rw [List.filterMap_cons_some hf, List.filterMap_cons_some hg, List.mapM_cons, hh, ih same.2]
      rfl

theorem checkDimensions_axisOf (dimensions : List (Dimension ρ)) (records : List ρ) :
    checkDimensions (dimensions.map (·.axisOf records)) dimensions = .ok () := by
  rw [checkDimensions_eq_ok_iff, List.forall₂_map_left_iff, List.forall₂_same]
  exact fun d _ => Dimension.axisOf_kind

namespace Dimension

def seeded (d : Dimension ρ) (a : Axis) : Gathering ρ :=
  a.values.foldl Gathering.add { dimension := d }

@[simp] theorem seeded_dimension {d : Dimension ρ} {a : Axis} : (d.seeded a).dimension = d :=
  Gathering.foldl_add_dimension a.values _

end Dimension

namespace Survey

/-- Axes that are accepted are given to their dimensions. -/
theorem addAxes_seeded {axes : List Axis} {dimensions : List (Dimension ρ)}
    (accepted : List.Forall₂ (fun a d => a.kind = d.kind) axes dimensions) :
    addAxes (dimensions.map fun d => { dimension := d }) axes =
      ((dimensions.zip axes).map fun p => p.1.seeded p.2, .ok ()) := by
  induction accepted with
  | nil => rfl
  | cons hkind _ ih =>
    rw [List.map_cons, addAxes, Gathering.addAll, if_pos hkind]
    simp only [ih]
    rfl

theorem addAxes_axisOf (dimensions : List (Dimension ρ)) (records : List ρ) :
    addAxes (dimensions.map fun d => { dimension := d }) (dimensions.map (·.axisOf records)) =
      (dimensions.map fun d => (d.axisOf records).values.foldl Gathering.add { dimension := d },
        .ok ()) := by
  have kinds := checkDimensions_eq_ok_iff.mp (checkDimensions_axisOf dimensions records)
  have h := addAxes_seeded kinds
  rw [Dimension.zip_axisOf, Dimension.gathered, List.map_map] at h
  exact h

end Survey

/-- A dimension that is given the values of some records and then meets more makes the axis of
all of them. -/
theorem Dimension.Ordered.axis_extended {d : Dimension ρ} (h : d.Ordered) (as bs : List ρ) :
    (bs.foldl Gathering.offer
      ((d.axisOf as).values.foldl Gathering.add { dimension := d })).axis =
        d.axisOf (as ++ bs) := by
  refine h.axis_eq (by simp) ?_ fun v => ?_
  · exact Gathering.nodup_foldl_offer (Gathering.nodup_foldl_add List.nodup_nil _) bs
  · simp only [Gathering.mem_foldl_offer, Gathering.mem_foldl_add, Gathering.foldl_add_dimension,
      mem_axisOf, List.not_mem_nil, false_or, List.mem_append, or_and_right, exists_or]

namespace Space

theorem mapM_reindex {dimensions : List (Dimension ρ)} {as all : List ρ} {r : ρ}
    {is js : List Nat}
    (old : Resolution.ofRecord r (Dimension.gathered dimensions as) = .found is)
    (new : Resolution.ofRecord r (Dimension.gathered dimensions all) = .found js) :
    (is.zip ((dimensions.map (·.axisOf as)).zip (dimensions.map (·.axisOf all)))).mapM
      (fun (i, a, b) => a.values[i]?.bind b.index?) = some js := by
  rw [Resolution.ofRecord_eq_found_iff] at old new
  induction dimensions generalizing is js with
  | nil =>
    cases old
    cases new
    rfl
  | cons d dimensions ih =>
    obtain ⟨i, is, ⟨v, hv, hi⟩, hrest, rfl⟩ := List.forall₂_cons_left_iff.mp old
    obtain ⟨j, js, ⟨w, hw, hj⟩, hrest', rfl⟩ := List.forall₂_cons_left_iff.mp new
    rw [hv] at hw
    cases hw
    have hvi : (d.axisOf as).values[i]? = some v := Axis.getElem?_of_lastIndex? hi
    have hstep : (d.axisOf as).values[i]?.bind (d.axisOf all).index? = some j := by
      rw [hvi, Option.bind_some, hj]
    simp only [List.map_cons, List.zip_cons_cons, List.mapM_cons, hstep]
    rw [ih hrest hrest']
    rfl

variable [Located ρ]

/-- The entry of a record on old axes becomes its entry on the axes of more records. -/
theorem reindex?_entry {dimensions : List (Dimension ρ)} {as all : List ρ} {r : ρ} {position : Nat}
    {old new : Entry}
    (hold : Placement.entryFor? (Dimension.gathered dimensions as) position r = some old)
    (hnew : Placement.entryFor? (Dimension.gathered dimensions all) position r = some new) :
    reindex? (dimensions.map (·.axisOf as)) (dimensions.map (·.axisOf all)) old = some new := by
  obtain ⟨hp, hl, hi⟩ := Placement.entryFor?_eq_some_iff.mp hold
  obtain ⟨hp', hl', hi'⟩ := Placement.entryFor?_eq_some_iff.mp hnew
  rw [reindex?, mapM_reindex hi hi']
  cases old
  cases new
  simp_all

theorem reindex_entriesOf {dimensions : List (Dimension ρ)} {as all : List ρ}
    (among : ∀ r ∈ as, r ∈ all) {p : Placement ρ}
    (axes : p.axes = dimensions.map (·.axisOf all)) :
    reindex (dimensions.map (·.axisOf as)) p
      (Placement.entriesOf (Dimension.gathered dimensions as) 0 as) =
        .ok { p with
          entries := Placement.entriesOf (Dimension.gathered dimensions all) 0 as } := by
  -- a record has an entry on the old axes exactly when it has one on the new ones
  refine Except.bind_eq_ok_iff.mpr ⟨_, mapM_filterMap fun q hq => ?_, rfl⟩
  have mem := List.fst_mem_of_mem_zipIdx hq
  have read := (Placement.isSome_entryFor?_gathered dimensions mem q.2).trans
    (Placement.isSome_entryFor?_gathered dimensions (among _ mem) q.2).symm
  cases hold : Placement.entryFor? (Dimension.gathered dimensions as) q.2 q.1 with
  | none =>
    rw [hold] at read
    exact .inl ⟨rfl, Option.not_isSome_iff_eq_none.mp (by rw [← read]; exact Bool.false_ne_true)⟩
  | some old =>
    rw [hold] at read
    obtain ⟨new, hnew⟩ := Option.isSome_iff_exists.mp read.symm
    exact .inr ⟨old, new, rfl, hnew, by simp only [axes, reindex?_entry hold hnew]⟩

section Rebuild

variable {dimensions : List (Dimension ρ)} {as bs : List ρ} {options : BuildOptions}

theorem nextPosition_ofRecords (policy : DuplicatePolicy) (fits : as.length < wordLimit) :
    (ofRecords dimensions as policy).nextPosition = as.length := by
  refine foldl_max_of_le fun n hn => ?_
  obtain ⟨e, he, rfl⟩ := List.mem_map.mp hn
  have := Placement.position_of_mem_entriesOf he
  rw [positionAfter_of_lt (by omega)]
  exact (by omega : e.position + 1 ≤ as.length)

/-- An extension of the space of some records comes to the space of these and the new ones. -/
theorem extend_ofRecords (nonempty : dimensions ≠ []) (ordered : ∀ d ∈ dimensions, d.Ordered)
    (valid : options.validate = .ok ()) (fits : (as ++ bs).length < wordLimit)
    (policy : DuplicatePolicy) :
    (ofRecords dimensions as policy).extend dimensions bs options =
      let s := ofRecords dimensions (as ++ bs) options.duplicatePolicy
      .ok (s, { seen := bs.length
                indexed := (Placement.entriesOf (Dimension.gathered dimensions (as ++ bs))
                  as.length bs).length
                skipped := Survey.failures dimensions as.length bs
                duplicates := Cell.duplicates s.cells }) := by
  rw [List.length_append] at fits
  have hempty : dimensions.isEmpty = false := by simpa using nonempty
  have haxes : (ofRecords dimensions as policy).axes = dimensions.map (·.axisOf as) := rfl
  have hentries : (ofRecords dimensions as policy).entries =
      Placement.entriesOf (Dimension.gathered dimensions as) 0 as := rfl
  simp only [extend, valid, haxes, hentries, checkDimensions_axisOf,
    nextPosition_ofRecords policy (by omega : as.length < wordLimit), Survey.start, hempty,
    Bool.false_eq_true, if_false, bind, Except.bind, Survey.seed, List.length_map, ne_eq,
    not_true_eq_false, Survey.addAxes_axisOf]
  rw [Placement.finish_accumulateBatch (fun d => Gathering.foldl_add_dimension _ _)
      (fun d hd => (ordered d hd).axis_extended as bs) (by omega),
    reindex_entriesOf (fun _ h => List.mem_append_left bs h) rfl]
  have published := Placement.publish_opening dimensions
    (fun _ h => List.mem_append_right as h) fits options.duplicatePolicy
    (Placement.entriesOf (Dimension.gathered dimensions (as ++ bs)) 0 as)
  refine congrArg Except.ok (published.trans ?_)
  simp only [ofRecords, Placement.entriesOf_append, Nat.zero_add, List.length_append]

theorem sound_ofRecords (nonempty : dimensions ≠ []) (policy : DuplicatePolicy) :
    (ofRecords dimensions as policy).Sound where
  nonempty := by simpa [ofRecords, assemble] using nonempty
  nodup a ha := by
    obtain ⟨d, -, rfl⟩ := List.mem_map.mp ha
    exact Dimension.nodup_axisOf
  inRange e he := by
    obtain ⟨p, -, hp⟩ := List.mem_filterMap.mp he
    have inRange := Resolution.inRange_of_found (Placement.entryFor?_eq_some_iff.mp hp).2.2
    rw [Dimension.gathered, List.map_map, List.map_map] at inRange
    rwa [shape, ofRecords, assemble, List.map_map]
  cells := rfl

theorem restore_snapshot_ofRecords (nonempty : dimensions ≠ []) (fits : as.length < wordLimit)
    (policy : DuplicatePolicy) :
    restore (ofRecords dimensions as policy).snapshot = .ok (ofRecords dimensions as policy) := by
  rw [(sound_ofRecords nonempty policy).restore_snapshot, nextPosition_ofRecords policy fits]
  rfl

/-- One extension of a space, which may have been written out and restored before it. -/
def extendAfter (dimensions : List (Dimension ρ)) (options : BuildOptions)
    (result : Space × Report) : Bool × List ρ → Except IndexFault (Space × Report)
  | (isRestored, records) => do
    let s ← if isRestored then restore result.1.snapshot else .ok result.1
    s.extend dimensions records options

theorem extendAfter_ofRecords (nonempty : dimensions ≠ []) (ordered : ∀ d ∈ dimensions, d.Ordered)
    (valid : options.validate = .ok ()) (fits : (as ++ bs).length < wordLimit) (isRestored : Bool)
    (report : Report) :
    ∃ next, extendAfter dimensions options
        (ofRecords dimensions as options.duplicatePolicy, report) (isRestored, bs) =
          .ok (ofRecords dimensions (as ++ bs) options.duplicatePolicy, next) ∧
      next.duplicates =
        Cell.duplicates (ofRecords dimensions (as ++ bs) options.duplicatePolicy).cells := by
  have hextend := extend_ofRecords nonempty ordered valid fits options.duplicatePolicy
  cases isRestored with
  | false => exact ⟨_, hextend, rfl⟩
  | true =>
    have hshort : as.length < wordLimit := by
      rw [List.length_append] at fits
      omega
    simp only [extendAfter, if_true, restore_snapshot_ofRecords nonempty hshort]
    exact ⟨_, hextend, rfl⟩

/-- A chain of extensions comes to the space of all the records. -/
theorem foldlM_extendAfter (nonempty : dimensions ≠ []) (ordered : ∀ d ∈ dimensions, d.Ordered)
    (valid : options.validate = .ok ()) {steps : List (Bool × List ρ)}
    (fits : (as ++ (steps.map Prod.snd).flatten).length < wordLimit) {report : Report}
    (duplicates : report.duplicates =
      Cell.duplicates (ofRecords dimensions as options.duplicatePolicy).cells) :
    ∃ last, steps.foldlM (extendAfter dimensions options)
        (ofRecords dimensions as options.duplicatePolicy, report) =
          .ok (ofRecords dimensions (as ++ (steps.map Prod.snd).flatten)
            options.duplicatePolicy, last) ∧
      last.duplicates = Cell.duplicates (ofRecords dimensions
        (as ++ (steps.map Prod.snd).flatten) options.duplicatePolicy).cells := by
  induction steps generalizing as report with
  | nil => exact ⟨report, by simp; rfl, by simpa using duplicates⟩
  | cons step steps ih =>
    obtain ⟨isRestored, bs⟩ := step
    simp only [List.map_cons, List.flatten_cons, ← List.append_assoc] at fits ⊢
    have hshort : (as ++ bs).length < wordLimit := by
      rw [List.length_append] at fits
      omega
    obtain ⟨next, hnext, hduplicates⟩ :=
      extendAfter_ofRecords nonempty ordered valid hshort isRestored report
    rw [List.foldlM_cons, hnext]
    exact ih fits hduplicates

/-- A build extended by more and more records, written out and restored on the way or not, is the
build of all the records, and the last report names the same duplicates. -/
theorem extend_eq_rebuild (nonempty : dimensions ≠ []) (ordered : ∀ d ∈ dimensions, d.Ordered)
    (valid : options.validate = .ok ()) (steps : List (Bool × List ρ))
    (fits : (as ++ (steps.map Prod.snd).flatten).length < wordLimit) :
    ∃ s first t full last, build dimensions as options = .ok (s, first) ∧
      build dimensions (as ++ (steps.map Prod.snd).flatten) options = .ok (t, full) ∧
      steps.foldlM (extendAfter dimensions options) (s, first) = .ok (t, last) ∧
      last.duplicates = full.duplicates := by
  have hshort : as.length < wordLimit := by
    rw [List.length_append] at fits
    omega
  obtain ⟨first, hfirst, hsame⟩ : ∃ first, build dimensions as options =
        .ok (ofRecords dimensions as options.duplicatePolicy, first) ∧
      first.duplicates =
        Cell.duplicates (ofRecords dimensions as options.duplicatePolicy).cells :=
    ⟨_, build_eq nonempty valid hshort, rfl⟩
  obtain ⟨last, hlast, hduplicates⟩ := foldlM_extendAfter nonempty ordered valid fits hsame
  exact ⟨_, first, _, _, last, hfirst, build_eq nonempty valid fits, hlast, hduplicates⟩

end Rebuild

/-- Fields with a level and without one, extended by an earlier run and, from the snapshot, by a
field that repeats a cell. -/
theorem extend_eq_rebuild_surfaces :
    let field (time : Int) (level : Option Surface) : Field :=
      ⟨0, 0, 28, 0, 98, ⟨time, 0⟩, 0, ⟨0, 0, 0⟩, .instant 0, level, none⟩
    let surface : Surface := ⟨100, .zero⟩
    let records := [field 3600 (some surface), field 7200 none]
    let steps := [(false, [field 0 (some surface)]), (true, [field 3600 (some surface)])]
    let dimensions := [(FieldDimension.vertical none true).dimension,
      FieldDimension.runtime.dimension]
    let options : BuildOptions := { duplicatePolicy := .firstWins }
    (dimensions ≠ [] ∧ (∀ d ∈ dimensions, d.Ordered) ∧ options.validate = .ok () ∧
      (records ++ (steps.map Prod.snd).flatten).length < wordLimit) ∧
      ∃ s first t full last, build dimensions records options = .ok (s, first) ∧
        build dimensions (records ++ (steps.map Prod.snd).flatten) options = .ok (t, full) ∧
        steps.foldlM (extendAfter dimensions options) (s, first) = .ok (t, last) ∧
        last.duplicates = full.duplicates := by
  intro field surface records steps dimensions options
  have ordered : ∀ d ∈ dimensions, d.Ordered := by
    simp [dimensions, FieldDimension.ordered]
  exact ⟨⟨List.cons_ne_nil _ _, ordered, rfl, by decide⟩,
    extend_eq_rebuild (List.cons_ne_nil _ _) ordered rfl steps (by decide)⟩

end Space

end GribCatalog
