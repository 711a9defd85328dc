import GribCatalog.Proofs.Order
import GribCatalog.Proofs.Outcome
import GribCatalog.Proofs.Placement
import GribCatalog.Space.Build

/-! Building a space. The two passes over the records agree: the axes list what the
dimensions read, every record that all of them read has its entry, and every other
record is accounted for among the skipped. -/

namespace GribCatalog

variable {ρ : Type}

theorem forall₂_filter_filterMap {α β : Type} {R : α → β → Prop} {p : α → Bool}
    {f : α → Option β} {l : List α} (kept : ∀ a ∈ l, p a = true → ∃ b, f a = some b ∧ R a b)
    (dropped : ∀ a ∈ l, p a = false → f a = none) :
    List.Forall₂ R (l.filter p) (l.filterMap f) := by
  induction l with
  | nil => exact .nil
  | cons a l ih =>
    rw [List.forall_mem_cons] at kept dropped
    have ih := ih kept.2 dropped.2
    cases hp : p a with
    | true =>
      obtain ⟨b, hb, hR⟩ := kept.1 hp
      rw [List.filter_cons_of_pos hp, List.filterMap_cons_some hb]
      exact .cons hR ih
    | false =>
      rw [List.filter_cons_of_neg (by simp [hp]), List.filterMap_cons_none (dropped.1 hp)]
      exact ih

structure Axis.Lists (records : List ρ) (d : Dimension ρ) (a : Axis) : Prop where
  name : a.name = d.name
  kind : a.kind = d.kind
  ascending : a.values.Pairwise fun v w => d.order v w = .lt
  mem : ∀ v, v ∈ a.values ↔ ∃ r ∈ records, d.extract r = .ok v

theorem Dimension.Ordered.lists_axisOf {d : Dimension ρ} (h : d.Ordered) (records : List ρ) :
    Axis.Lists records d (d.axisOf records) where
  name := axisOf_name
  kind := axisOf_kind
  ascending := h.pairwise_axisOf
  mem _ := mem_axisOf

structure Entry.Places [Located ρ] (pairs : List (Dimension ρ × Axis)) (p : ρ × Nat) (e : Entry) :
    Prop where
  position : e.position = p.2
  location : e.location = Located.location p.1
  indices : List.Forall₂ (fun q i => ∃ v, q.1.extract p.1 = .ok v ∧ q.2.values[i]? = some v)
    pairs e.indices

def Dimension.gathered (dimensions : List (Dimension ρ)) (records : List ρ) :
    List (Dimension ρ × Axis) :=
  dimensions.map fun d => (d, d.axisOf records)

namespace Dimension

variable {dimensions : List (Dimension ρ)} {records : List ρ} {r : ρ}

theorem zip_axisOf : dimensions.zip (dimensions.map (·.axisOf records)) =
    gathered dimensions records := by
  rw [gathered, ← List.zip_map', List.map_id']

theorem map_fst_gathered : (gathered dimensions records).map Prod.fst = dimensions := by
  simp [gathered, Function.comp_def]

theorem covers_gathered (dimensions : List (Dimension ρ)) (hr : r ∈ records) :
    Resolution.Covers r (gathered dimensions records) := by
  intro p hp v hv
  obtain ⟨d, -, rfl⟩ := List.mem_map.mp hp
  exact mem_axisOf.mpr ⟨r, hr, hv⟩

end Dimension

/-- On the axes of records each of them is found or, if some dimension cannot read it,
unextractable. -/
theorem Resolution.ofRecord_gathered (dimensions : List (Dimension ρ)) {records : List ρ} {r : ρ}
    (mem : r ∈ records) :
    (Dimension.allRead dimensions r = true ∧
      ∃ indices, ofRecord r (Dimension.gathered dimensions records) = .found indices) ∨
    (Dimension.allRead dimensions r = false ∧
      ∃ d e, ofRecord r (Dimension.gathered dimensions records) = .unextractable d e) := by
  have covers := Dimension.covers_gathered dimensions mem
  have hmap : (Dimension.gathered dimensions records).map Prod.fst = dimensions :=
    Dimension.map_fst_gathered
  cases hread : Dimension.allRead dimensions r with
  | true => exact .inl ⟨rfl, ofRecord_found_of_covers covers (hmap.symm ▸ hread)⟩
  | false =>
    obtain ⟨p, -, e, -, h⟩ := ofRecord_unextractable_of_covers covers (hmap.symm ▸ hread)
    exact .inr ⟨rfl, p.1.name, e, h⟩

namespace Placement

/-- Records that the axes were gathered from are settled once those that some dimension cannot
read are named. -/
theorem settled_gathered {dimensions : List (Dimension ρ)} {all : List ρ} {skipped : List Skip}
    {p : ρ × Nat} (mem : p.1 ∈ all)
    (named : Dimension.allRead dimensions p.1 = false → ∃ s ∈ skipped, s.position = p.2) :
    Settled (Dimension.gathered dimensions all) skipped p.2 p.1 := by
  rcases Resolution.ofRecord_gathered dimensions mem with ⟨-, hfound⟩ | ⟨hread, hfailed⟩
  · exact .inl hfound
  · exact .inr ⟨hfailed, named hread⟩

/-- Where the second pass over `records` starts, on the axes of all records. -/
def opening (dimensions : List (Dimension ρ)) (all : List ρ) (policy : DuplicatePolicy)
    (entries : List Entry) (position : Nat) (records : List ρ) : Placement ρ where
  dimensions
  axes := dimensions.map (·.axisOf all)
  policy
  entries
  position
  report :=
    { seen := records.length, skipped := Survey.failures dimensions position records }

theorem finish_eq {gatherings : List (Gathering ρ)} {position : Nat} {records : List ρ}
    (fits : position + records.length ≤ wordLimit) (options : BuildOptions) :
    (({ gatherings, base := position } : Survey ρ).accumulateBatch options records).finish
        options =
      { dimensions := gatherings.map Gathering.dimension
        axes := gatherings.map fun g => (records.foldl Gathering.offer g).axis
        policy := options.duplicatePolicy
        position
        report :=
          { seen := records.length
            skipped :=
              Survey.failures (gatherings.map Gathering.dimension) position records } } := by
  rw [Survey.accumulateBatch_eq options (by simp only; omega),
    Survey.foldl_accumulate (by simp only; omega)]
  simp [Survey.finish, Function.comp_def]

theorem finish_accumulateBatch {dimensions : List (Dimension ρ)} {records all : List ρ}
    {gathering : Dimension ρ → Gathering ρ}
    (dimension : ∀ d, (gathering d).dimension = d)
    (axis : ∀ d ∈ dimensions, (records.foldl Gathering.offer (gathering d)).axis = d.axisOf all)
    {position : Nat} (fits : position + records.length ≤ wordLimit) (options : BuildOptions) :
    (({ gatherings := dimensions.map gathering, base := position } : Survey ρ).accumulateBatch
        options records).finish options =
      opening dimensions all options.duplicatePolicy [] position records := by
  have haxes := List.map_congr_left axis
  rw [finish_eq fits]
  simp [opening, Function.comp_def, dimension, haxes]

variable [Located ρ] (dimensions : List (Dimension ρ)) {records : List ρ} {r : ρ}

theorem isSome_entryFor?_gathered (mem : r ∈ records) (position : Nat) :
    (entryFor? (Dimension.gathered dimensions records) position r).isSome =
      Dimension.allRead dimensions r := by
  unfold entryFor?
  rcases Resolution.ofRecord_gathered dimensions mem with ⟨hread, _, h⟩ | ⟨hread, _, _, h⟩
  · simp [h, hread]
  · simp [h, hread]

/-- On axes that hold what the dimensions read, the records that all of them read have entries. -/
theorem places_entriesOf {pairs : List (Dimension ρ × Axis)}
    (covers : ∀ r ∈ records, Resolution.Covers r pairs) (position : Nat) :
    List.Forall₂ (Entry.Places pairs)
      ((records.zipIdx position).filter fun p => Dimension.allRead (pairs.map Prod.fst) p.1)
      (entriesOf pairs position records) := by
  refine forall₂_filter_filterMap ?_ ?_
  · intro p hp hread
    obtain ⟨indices, hfound⟩ := Resolution.ofRecord_found_of_covers
      (covers p.1 (List.fst_mem_of_mem_zipIdx hp)) hread
    refine ⟨⟨p.2, Located.location p.1, indices⟩,
      entryFor?_eq_some_iff.mpr ⟨rfl, rfl, hfound⟩, rfl, rfl, ?_⟩
    refine (Resolution.ofRecord_eq_found_iff.mp hfound).imp ?_
    rintro q i ⟨v, hv, hi⟩
    exact ⟨v, hv, Axis.getElem?_of_lastIndex? hi⟩
  · intro p hp hread
    obtain ⟨q, -, e, -, hfailed⟩ := Resolution.ofRecord_unextractable_of_covers
      (covers p.1 (List.fst_mem_of_mem_zipIdx hp)) hread
    simp only [entryFor?, hfailed]

/-- On the axes of all records, as many of them have an entry as all dimensions can read. -/
theorem length_entriesOf {all : List ρ} (among : ∀ r ∈ records, r ∈ all) (position : Nat) :
    (entriesOf (Dimension.gathered dimensions all) position records).length =
      records.countP (Dimension.allRead dimensions) := by
  induction records generalizing position with
  | nil => rfl
  | cons r records ih =>
    rw [List.forall_mem_cons] at among
    have hr := isSome_entryFor?_gathered dimensions among.1 position
    rw [entriesOf_cons, List.length_append, ih among.2, List.countP_cons, ← hr]
    cases entryFor? (Dimension.gathered dimensions all) position r with
    | none => simp
    | some e => simp [Nat.add_comm]

theorem publish_opening {all : List ρ}
    (among : ∀ r ∈ records, r ∈ all) {position : Nat} (fits : position + records.length < wordLimit)
    (policy : DuplicatePolicy) (entries : List Entry) :
    (records.foldl assign (opening dimensions all policy entries position records)).publish =
      let added := entriesOf (Dimension.gathered dimensions all) position records
      let s := Space.assemble (dimensions.map (·.axisOf all)) (entries ++ added) policy
        (position + records.length)
      (s, { seen := records.length
            indexed := added.length
            skipped := Survey.failures dimensions position records
            duplicates := Cell.duplicates s.cells }) := by
  rw [foldl_assign fits]
  · simp only [opening, publish, Dimension.zip_axisOf, Space.assemble, Nat.zero_add]
  · intro q hq
    simp only [opening, Dimension.zip_axisOf] at hq ⊢
    exact settled_gathered (among _ (List.fst_mem_of_mem_zipIdx hq))
      (Survey.exists_failure hq)

end Placement

namespace Space

variable [Located ρ] {dimensions : List (Dimension ρ)} {records : List ρ} {options : BuildOptions}

def ofRecords (dimensions : List (Dimension ρ)) (records : List ρ) (policy : DuplicatePolicy) :
    Space :=
  assemble (dimensions.map (·.axisOf records))
    (Placement.entriesOf (Dimension.gathered dimensions records) 0 records) policy records.length

theorem build_eq (nonempty : dimensions ≠ []) (valid : options.validate = .ok ())
    (fits : records.length < wordLimit) :
    build dimensions records options =
      let s := ofRecords dimensions records options.duplicatePolicy
      .ok (s, { seen := records.length
                indexed := s.entries.length
                skipped := Survey.failures dimensions 0 records
                duplicates := Cell.duplicates s.cells }) := by
  have hempty : dimensions.isEmpty = false := by simpa using nonempty
  simp only [build, valid, Survey.start, hempty, Bool.false_eq_true, if_false, bind, Except.bind]
  rw [Placement.finish_accumulateBatch (fun _ => rfl) (fun _ _ => rfl) (by omega),
    Placement.publish_opening dimensions (fun _ h => h) (by omega)]
  simp only [List.nil_append, Nat.zero_add, ofRecords, assemble]

structure Accounts (dimensions : List (Dimension ρ)) (records : List ρ) (s : Space)
    (report : Report) : Prop where
  axes : List.Forall₂ (Axis.Lists records) dimensions s.axes
  entries : List.Forall₂ (Entry.Places (dimensions.zip s.axes))
    (records.zipIdx.filter fun p => Dimension.allRead dimensions p.1) s.entries
  misses : report.misses = []
  skipped : report.skipped = records.zipIdx.flatMap fun (r, i) =>
    dimensions.filterMap fun d => (d.fault? r).map fun e => ⟨i, d.name, e.message⟩
  seen : report.seen = records.length
  indexed : report.indexed = s.entries.length
  total : report.indexed + report.skippedRecords = report.seen

theorem entries_ofRecords (dimensions : List (Dimension ρ)) (records : List ρ)
    (policy : DuplicatePolicy) :
    List.Forall₂ (Entry.Places (Dimension.gathered dimensions records))
      (records.zipIdx.filter fun p => Dimension.allRead dimensions p.1)
      (ofRecords dimensions records policy).entries := by
  have places := Placement.places_entriesOf
    (fun _ (hr : _ ∈ records) => Dimension.covers_gathered dimensions hr) 0
  rwa [Dimension.map_fst_gathered] at places

/-- Building succeeds and accounts for every record, as long as a word counts the records, as it
does with any list in memory. -/
theorem build_accounts (nonempty : dimensions ≠ []) (ordered : ∀ d ∈ dimensions, d.Ordered)
    (valid : options.validate = .ok ()) (fits : records.length < wordLimit) :
    ∃ s report, build dimensions records options = .ok (s, report) ∧
      Accounts dimensions records s report := by
  refine ⟨_, _, build_eq nonempty valid fits, ?_⟩
  have hentries := entries_ofRecords dimensions records options.duplicatePolicy
  constructor
  case axes =>
    rw [ofRecords, assemble, List.forall₂_map_right_iff, List.forall₂_same]
    exact fun d hd => (ordered d hd).lists_axisOf records
  case entries =>
    rw [← Dimension.zip_axisOf] at hentries
    exact hentries
  case misses => rfl
  case skipped => rfl
  case seen => rfl
  case indexed => rfl
  case total =>
    have read : (records.zipIdx.filter fun p => Dimension.allRead dimensions p.1).length =
        (records.filter (Dimension.allRead dimensions)).length := by
      rw [← List.countP_eq_length_filter, ← List.countP_eq_length_filter]
      have hmap := @List.countP_map _ _ (Dimension.allRead dimensions) Prod.fst records.zipIdx
      rw [List.zipIdx_map_fst] at hmap
      exact hmap.symm
    have unread := Survey.length_eraseDups_failures dimensions 0 records
    rw [Report.skippedRecords, unread, ← hentries.length_eq, read,
      List.length_eq_length_filter_add (Dimension.allRead dimensions)]

/-- Fields with a level, with the same level again and without one, on levels and runs. -/
theorem build_accounts_surfaces :
    let field (time : Int) (level : Option Surface) : Field :=
      ⟨0, 0, 28, 0, 98, ⟨time, 0⟩, 0, ⟨0, 0, 0⟩, .instant 0, level, none⟩
    let records := [field 0 (some ⟨100, .zero⟩), field 3600 none, field 0 (some ⟨100, .zero⟩)]
    let dimensions := [(FieldDimension.vertical none true).dimension,
      FieldDimension.runtime.dimension]
    let options : BuildOptions := { parallel := true, parallelThreshold := 2 }
    (dimensions ≠ [] ∧ (∀ d ∈ dimensions, d.Ordered) ∧ options.validate = .ok () ∧
      records.length < wordLimit) ∧
      ∃ s report, build dimensions records options = .ok (s, report) ∧
        Accounts dimensions records s report := by
  intro field records dimensions options
  have ordered : ∀ d ∈ dimensions, d.Ordered := by
    simp [dimensions, FieldDimension.ordered]
  exact ⟨⟨List.cons_ne_nil _ _, ordered, rfl, by decide⟩,
    build_accounts (List.cons_ne_nil _ _) ordered rfl (by decide)⟩

end Space

end GribCatalog
