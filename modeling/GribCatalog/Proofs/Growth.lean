import GribCatalog.Proofs.Build
import GribCatalog.Proofs.Untouched

/-! Spaces that grow. An extension always succeeds, since every stored value is given to the new
axes before any new one. The stored entries come first, each at its place and with its values,
the new ones follow, and an axis that was in order is spread out without being shuffled. -/

namespace GribCatalog

variable {ρ : Type}

namespace Dimension

def widened (d : Dimension ρ) (a : Axis) (records : List ρ) : Axis :=
  (records.foldl Gathering.offer (d.seeded a)).axis

variable {d : Dimension ρ} {a : Axis} {records : List ρ}

@[simp] theorem widened_name : (d.widened a records).name = d.name := by
  simp [widened, Gathering.axis]

@[simp] theorem widened_kind : (d.widened a records).kind = d.kind := by
  simp [widened, Gathering.axis]

theorem widened_values :
    (d.widened a records).values = d.sort (records.foldl Gathering.offer (d.seeded a)).values := by
  simp [widened, Gathering.axis]

theorem mem_widened {v : AxisValue} :
    v ∈ (d.widened a records).values ↔ v ∈ a.values ∨ ∃ r ∈ records, d.extract r = .ok v := by
  rw [widened_values, mem_sort, Gathering.mem_foldl_offer, seeded_dimension, seeded,
    Gathering.mem_foldl_add]
  simp

theorem nodup_gathered_widened : (records.foldl Gathering.offer (d.seeded a)).values.Nodup :=
  Gathering.nodup_foldl_offer (Gathering.nodup_foldl_add List.nodup_nil a.values) records

theorem Ordered.pairwise_widened (h : d.Ordered) :
    (d.widened a records).values.Pairwise fun v w => d.order v w = .lt := by
  rw [widened_values]
  exact h.pairwise_sort nodup_gathered_widened

end Dimension

def Axis.moved? (a b : Axis) (i : Nat) : Option Nat :=
  a.values[i]?.bind b.index?

namespace Axis

/-- Between axes in the same order, values keep their order. -/
theorem moved?_lt {d : Dimension ρ} (ordered : d.Ordered) {a b : Axis} (nodup : a.values.Nodup)
    (sorted : a.values.Pairwise fun v w => (d.order v w).isLE)
    (ascending : b.values.Pairwise fun v w => d.order v w = .lt)
    (kept : ∀ v ∈ a.values, v ∈ b.values) {i j : Nat} (hij : i < j) (hj : j < a.size) :
    ∃ i' j', a.moved? b i = some i' ∧ a.moved? b j = some j' ∧ i' < j' := by
  have := ordered.trans
  have := ordered.lawful
  have hi : i < a.values.length := lt_trans hij hj
  have hj : j < a.values.length := hj
  obtain ⟨i', hi'⟩ := exists_index (kept _ (List.getElem_mem hi))
  obtain ⟨j', hj'⟩ := exists_index (kept _ (List.getElem_mem hj))
  refine ⟨i', j', ?_, ?_, ?_⟩
  · rw [moved?, List.getElem?_eq_getElem hi, Option.bind_some, hi']
  · rw [moved?, List.getElem?_eq_getElem hj, Option.bind_some, hj']
  -- two values are told apart by the order of both axes
  have hle := List.pairwise_iff_getElem.mp sorted i j hi hj hij
  have hne := List.pairwise_iff_getElem.mp nodup i j hi hj hij
  obtain ⟨hilt, hiv⟩ := List.getElem?_eq_some_iff.mp (getElem?_of_lastIndex? hi')
  obtain ⟨hjlt, hjv⟩ := List.getElem?_eq_some_iff.mp (getElem?_of_lastIndex? hj')
  rcases Nat.lt_trichotomy i' j' with h | rfl | h
  · exact h
  · exact absurd (hiv.symm.trans hjv) hne
  · have hgt := List.pairwise_iff_getElem.mp ascending j' i' hjlt hilt h
    rw [hiv, hjv] at hgt
    cases hvw : d.order a.values[i] a.values[j] with
    | lt => exact absurd hvw (Std.OrientedCmp.not_lt_of_lt hgt)
    | eq => exact absurd (Std.LawfulEqCmp.eq_of_compare hvw) hne
    | gt => rw [hvw] at hle; cases hle

structure Widens (records : List ρ) (d : Dimension ρ) (a b : Axis) : Prop where
  name : b.name = d.name
  kind : b.kind = a.kind
  ascending : b.values.Pairwise fun v w => d.order v w = .lt
  mem : ∀ v, v ∈ b.values ↔ v ∈ a.values ∨ ∃ r ∈ records, d.extract r = .ok v
  moved : (a.values.Pairwise fun v w => (d.order v w).isLE) → ∀ i j, i < j → j < a.size →
    ∃ i' j', a.moved? b i = some i' ∧ a.moved? b j = some j' ∧ i' < j'

end Axis

theorem Dimension.Ordered.widens_widened {d : Dimension ρ} (h : d.Ordered) {a : Axis}
    (nodup : a.values.Nodup) (kind : a.kind = d.kind) (records : List ρ) :
    Axis.Widens records d a (d.widened a records) where
  name := widened_name
  kind := widened_kind.trans kind.symm
  ascending := h.pairwise_widened
  mem _ := mem_widened
  moved sorted _ _ hij hj := Axis.moved?_lt h nodup sorted h.pairwise_widened
    (fun _ hv => mem_widened.mpr (.inl hv)) hij hj

namespace Placement

/-- Where the second pass over the records of an extension starts. -/
def reopening (dimensions : List (Dimension ρ)) (axes : List Axis) (policy : DuplicatePolicy)
    (position : Nat) (records : List ρ) : Placement ρ where
  dimensions
  axes := (dimensions.zip axes).map fun p => p.1.widened p.2 records
  policy
  position
  report :=
    { seen := records.length, skipped := Survey.failures dimensions position records }

theorem finish_seeded {axes : List Axis} {dimensions : List (Dimension ρ)}
    (arity : axes.length = dimensions.length) {position : Nat} {records : List ρ}
    (fits : position + records.length ≤ wordLimit) (options : BuildOptions) :
    (({ gatherings := (dimensions.zip axes).map fun p => p.1.seeded p.2
        base := position } : Survey ρ).accumulateBatch options records).finish options =
      reopening dimensions axes options.duplicatePolicy position records := by
  have hdimensions : (dimensions.zip axes).map Prod.fst = dimensions :=
    List.map_fst_zip arity.ge
  rw [finish_eq fits]
  simp [reopening, Function.comp_def, Dimension.widened, hdimensions]

variable [Located ρ]

/-- A run adds the entries of its records behind those that there are. -/
theorem foldl_assign_entries {records : List ρ} {p : Placement ρ}
    (fits : p.position + records.length ≤ wordLimit) :
    (records.foldl assign p).entries =
      p.entries ++ entriesOf (p.dimensions.zip p.axes) p.position records := by
  rw [foldl_assign_numbered, zip_positionsFrom fits]
  rfl

theorem foldl_assign_position {records : List ρ} {p : Placement ρ}
    (fits : p.position + records.length < wordLimit) :
    (records.foldl assign p).position = p.position + records.length := by
  rw [foldl_assign_stops (by omega), positionAfter_of_lt fits]

end Placement

structure Entry.Carried (s t : Space) (e e' : Entry) : Prop where
  position : e'.position = e.position
  location : e'.location = e.location
  values : ∃ values, s.valuesAt? e.indices = some values ∧ t.valuesAt? e'.indices = some values

namespace Space

theorem exists_mapM_moved {old new : List Axis}
    (kept : List.Forall₂ (fun a b => ∀ v ∈ a.values, v ∈ b.values) old new) {indices : List Nat}
    (inRange : List.Forall₂ (· < ·) indices (old.map Axis.size)) :
    ∃ indices', (indices.zip (old.zip new)).mapM
      (fun (i, a, b) => a.values[i]?.bind b.index?) = some indices' := by
  induction kept generalizing indices with
  | nil => exact ⟨[], by rw [List.zip_nil_left, List.zip_nil_right]; rfl⟩
  | @cons a b old new hab _ ih =>
    obtain ⟨i, rest, hi, hrest, rfl⟩ := List.forall₂_cons_right_iff.mp inRange
    obtain ⟨indices', hindices'⟩ := ih hrest
    have hv : a.values[i]? = some (a.values.get ⟨i, hi⟩) := List.getElem?_eq_getElem hi
    obtain ⟨j, hj⟩ := Axis.exists_index (hab _ (List.get_mem a.values ⟨i, hi⟩))
    refine ⟨j :: indices', ?_⟩
    simp only [List.zip_cons_cons, List.mapM_cons, hv, Option.bind_some, hj, hindices']
    rfl

/-- Entries are carried over to axes that keep the values. -/
theorem Sound.exists_reindex {s : Space} (h : s.Sound) {p : Placement ρ}
    (kept : List.Forall₂ (fun a b => ∀ v ∈ a.values, v ∈ b.values) s.axes p.axes) :
    ∃ entries, reindex s.axes p s.entries = .ok { p with entries } ∧
      List.Forall₂ (fun e e' => reindex? s.axes p.axes e = some e') s.entries entries := by
  cases hmoved : s.entries.mapM (reindex? s.axes p.axes) with
  | none =>
    obtain ⟨e, he, hnone⟩ := Option.mapM_eq_none_iff.mp hmoved
    obtain ⟨indices, hindices⟩ := exists_mapM_moved kept (h.inRange e he)
    rw [reindex?, hindices] at hnone
    cases hnone
  | some entries =>
    have moved := Option.forall₂_of_mapM_eq_some hmoved
    exact ⟨entries, reindex_eq_ok_iff.mpr ⟨entries, moved, rfl⟩, moved⟩

theorem Sound.carried {s t : Space} (h : s.Sound) (axes : s.axes.length = t.axes.length)
    {entries : List Entry}
    (moved : List.Forall₂ (fun e e' => reindex? s.axes t.axes e = some e') s.entries entries) :
    List.Forall₂ (Entry.Carried s t) s.entries entries := by
  refine ((List.forall₂_and_left _ _).mpr ⟨h.inRange, moved⟩).imp fun e e' he => ?_
  obtain ⟨inRange, hmoved⟩ := he
  have arity : e.indices.length = s.rank := inRange.length_eq.trans (List.length_map _)
  obtain ⟨hsource, hsame⟩ := valuesAt?_reindex? axes arity hmoved
  obtain ⟨values, hvalues, -⟩ := exists_values h.nodup inRange
  have hvalues : s.valuesAt? e.indices = some values := (if_pos arity).trans hvalues
  exact ⟨congrArg Prod.fst hsource, congrArg Prod.snd hsource, values, hvalues,
    hsame.trans hvalues⟩

theorem kept_widened {axes : List Axis} {dimensions : List (Dimension ρ)}
    (arity : axes.length = dimensions.length) (records : List ρ) :
    List.Forall₂ (fun a b => ∀ v ∈ a.values, v ∈ b.values) axes
      ((dimensions.zip axes).map fun p => p.1.widened p.2 records) := by
  induction axes generalizing dimensions with
  | nil => simp
  | cons a axes ih =>
    obtain ⟨d, dimensions, rfl⟩ := List.exists_cons_of_length_eq_add_one arity.symm
    exact .cons (fun v hv => Dimension.mem_widened.mpr (.inl hv)) (ih (Nat.succ.inj arity))

theorem zip_widened {axes : List Axis} {dimensions : List (Dimension ρ)}
    (arity : axes.length = dimensions.length) (records : List ρ) :
    dimensions.zip ((dimensions.zip axes).map fun p => p.1.widened p.2 records) =
      (dimensions.zip axes).map fun p => (p.1, p.1.widened p.2 records) := by
  have hfst : (dimensions.zip axes).map Prod.fst = dimensions := List.map_fst_zip arity.ge
  rw [← List.zip_map' (f := Prod.fst), hfst]

variable [Located ρ] {dimensions : List (Dimension ρ)} {records : List ρ} {options : BuildOptions}
  {s t : Space}

structure Extends (s : Space) (dimensions : List (Dimension ρ)) (records : List ρ)
    (policy : DuplicatePolicy) (t : Space) : Prop where
  axes : t.axes = (dimensions.zip s.axes).map fun p => p.1.widened p.2 records
  entries : ∃ kept, List.Forall₂ (Entry.Carried s t) s.entries kept ∧
    t.entries = kept ++ Placement.entriesOf (dimensions.zip t.axes) s.nextPosition records
  policy : t.policy = policy
  consumed : s.nextPosition + records.length < wordLimit →
    t.consumed = s.nextPosition + records.length

/-- An extension by dimensions that are accepted succeeds. -/
theorem Sound.exists_extend (h : s.Sound) (accepted : checkDimensions s.axes dimensions = .ok ())
    (valid : options.validate = .ok ()) (fits : s.nextPosition + records.length ≤ wordLimit) :
    ∃ t report, s.extend dimensions records options = .ok (t, report) ∧
      s.Extends dimensions records options.duplicatePolicy t := by
  have kinds := checkDimensions_eq_ok_iff.mp accepted
  have arity : s.axes.length = dimensions.length := kinds.length_eq
  have hempty : dimensions.isEmpty = false := by
    rw [List.isEmpty_eq_false_iff, ← List.length_pos_iff, ← arity, List.length_pos_iff]
    exact h.nonempty
  let p := Placement.reopening dimensions s.axes options.duplicatePolicy s.nextPosition records
  obtain ⟨entries, hreindex, moved⟩ := h.exists_reindex (p := p) (kept_widened arity records)
  have hextend : s.extend dimensions records options =
      .ok (records.foldl Placement.assign { p with entries }).publish := by
    simp only [Space.extend, valid, accepted, Survey.start, hempty, Bool.false_eq_true, if_false,
      bind, Except.bind, Survey.seed, List.length_map, arity, ne_eq, not_true_eq_false,
      Survey.addAxes_seeded kinds, Placement.finish_seeded arity fits, p, hreindex]
  have haxes := Placement.foldl_assign_axes records { p with entries }
  refine ⟨_, _, hextend, haxes, ⟨entries, ?_, ?_⟩, ?_, fun fits => ?_⟩
  · refine h.carried ?_ (haxes.symm ▸ moved)
    exact (kept_widened arity records).length_eq.trans (congrArg List.length haxes.symm)
  · refine (Placement.foldl_assign_entries (p := { p with entries }) fits).trans ?_
    exact congrArg (fun axes => entries ++ Placement.entriesOf (dimensions.zip axes) _ records)
      haxes.symm
  · exact Placement.foldl_assign_policy records _
  · exact Placement.foldl_assign_position (p := { p with entries }) fits

namespace Extends

variable {policy : DuplicatePolicy}

theorem length_axes (h : s.Extends dimensions records policy t)
    (arity : s.axes.length = dimensions.length) : t.axes.length = dimensions.length := by
  rw [h.axes, List.length_map, List.length_zip, arity, Nat.min_self]

theorem exists_pair (h : s.Extends dimensions records policy t)
    (arity : s.axes.length = dimensions.length) {q : Dimension ρ × Axis}
    (hq : q ∈ dimensions.zip t.axes) :
    ∃ p ∈ dimensions.zip s.axes, (p.1, p.1.widened p.2 records) = q := by
  rw [h.axes, zip_widened arity] at hq
  exact List.mem_map.mp hq

/-- The axes of an extension hold what the dimensions read from its records. -/
theorem covers (h : s.Extends dimensions records policy t)
    (arity : s.axes.length = dimensions.length) :
    ∀ r ∈ records, Resolution.Covers r (dimensions.zip t.axes) := by
  intro r hr q hq v hv
  obtain ⟨p, -, rfl⟩ := h.exists_pair arity hq
  exact Dimension.mem_widened.mpr (.inr ⟨r, hr, hv⟩)

theorem accepted (h : s.Extends dimensions records policy t)
    (arity : s.axes.length = dimensions.length) : checkDimensions t.axes dimensions = .ok () := by
  have kinds : List.Forall₂ (fun d a => a.kind = d.kind) dimensions t.axes := by
    refine List.forall₂_iff_zip.mpr ⟨(h.length_axes arity).symm, fun {d a} hq => ?_⟩
    obtain ⟨p, -, hp⟩ := h.exists_pair arity hq
    cases hp
    exact Dimension.widened_kind
  exact checkDimensions_eq_ok_iff.mpr kinds.flip

theorem places (h : s.Extends dimensions records policy t)
    (arity : s.axes.length = dimensions.length) :
    List.Forall₂ (Entry.Places (dimensions.zip t.axes))
      ((records.zipIdx s.nextPosition).filter fun p => Dimension.allRead dimensions p.1)
      (Placement.entriesOf (dimensions.zip t.axes) s.nextPosition records) := by
  have places := Placement.places_entriesOf (h.covers arity) s.nextPosition
  rwa [List.map_fst_zip (h.length_axes arity).ge] at places

end Extends

/-- What an extension leaves alone and what it adds. The old entries keep their order and their
records, and their indices go on standing for the same values. New entries come behind them, for
the records that all dimensions read, at the positions from the next one on. An axis has the old
values and the new ones in its order, and if the old ones were in that order they still are. -/
structure Preserves (s : Space) (dimensions : List (Dimension ρ)) (records : List ρ)
    (t : Space) : Prop where
  axes : List.Forall₂ (fun p b => Axis.Widens records p.1 p.2 b) (dimensions.zip s.axes) t.axes
  old : List.Forall₂ (Entry.Carried s t) s.entries (t.entries.take s.entries.length)
  new : List.Forall₂ (Entry.Places (dimensions.zip t.axes))
    ((records.zipIdx s.nextPosition).filter fun p => Dimension.allRead dimensions p.1)
    (t.entries.drop s.entries.length)

/-- However a space has come about, it can be extended by all dimensions that fit its axes, and
what was there is preserved, as long as the positions are words. -/
theorem Reachable.extend_preserves (reachable : s.Reachable)
    (ordered : ∀ d ∈ dimensions, d.Ordered)
    (accepted : checkDimensions s.axes dimensions = .ok ()) (valid : options.validate = .ok ())
    (fits : s.nextPosition + records.length ≤ wordLimit) :
    ∃ t report, s.extend dimensions records options = .ok (t, report) ∧
      s.Preserves dimensions records t := by
  have sound := reachable.sound
  have kinds := checkDimensions_eq_ok_iff.mp accepted
  have arity := kinds.length_eq
  obtain ⟨t, report, hextend, hextends⟩ := sound.exists_extend accepted valid fits
  obtain ⟨kept, hkept, hentries⟩ := hextends.entries
  refine ⟨t, report, hextend, ?_⟩
  constructor
  case axes =>
    rw [hextends.axes, List.forall₂_map_right_iff, List.forall₂_same]
    rintro ⟨d, a⟩ hmem
    obtain ⟨hd, ha⟩ := List.of_mem_zip hmem
    have hkind := (List.forall₂_iff_zip.mp kinds.flip).2 hmem
    exact (ordered d hd).widens_widened (sound.nodup a ha) hkind records
  case old =>
    rw [hentries, hkept.length_eq, List.take_left]
    exact hkept
  case new =>
    rw [hentries, hkept.length_eq, List.drop_left]
    exact hextends.places arity

/-- A stored space with its levels out of order and its runs in order, of which the first record
stands behind the second, is extended by a run between the stored ones on another level. -/
theorem extend_preserves_surfaces :
    let run (time : Int) : AxisValue := .runtime ⟨time, 0⟩
    let low : AxisValue := .level ⟨100, ⟨0x407F400000000000⟩, by decide, by decide⟩
    let high : AxisValue := .level ⟨100, ⟨0x408A900000000000⟩, by decide, by decide⟩
    let snapshot : Snapshot :=
      ⟨1, .lastWins, [⟨"vertical", .vertical, [low, high]⟩,
        ⟨"runtime", .runtime, [run 0, run 7200]⟩],
        [⟨8, ⟨0, 28, 56, 0⟩, [0, 1]⟩, ⟨4, ⟨0, 0, 28, 0⟩, [1, 0]⟩], 6⟩
    let field (time : Int) (level : Option Surface) : Field :=
      ⟨1, 0, 28, 0, 98, ⟨time, 0⟩, 0, ⟨0, 0, 0⟩, .instant 0, level, none⟩
    let records := [field 3600 (some ⟨100, .zero⟩), field 0 none]
    let dimensions := [(FieldDimension.vertical none true).dimension,
      FieldDimension.runtime.dimension]
    ∃ s, restore snapshot = .ok s ∧ s.nextPosition = 9 ∧
      (s.Reachable ∧ (∀ d ∈ dimensions, d.Ordered) ∧
        checkDimensions s.axes dimensions = .ok () ∧
        ({} : BuildOptions).validate = .ok () ∧ s.nextPosition + records.length ≤ wordLimit) ∧
      ∃ t report, s.extend dimensions records {} = .ok (t, report) ∧
        s.Preserves dimensions records t := by
  intro run low high snapshot field records dimensions
  have restored : restore snapshot =
      .ok (assemble snapshot.axes snapshot.entries .lastWins 6) := by decide +kernel
  have reachable := Reachable.restore restored
  have ordered : ∀ d ∈ dimensions, d.Ordered := by
    simp [dimensions, FieldDimension.ordered]
  have fits : (assemble snapshot.axes snapshot.entries .lastWins 6).nextPosition +
      records.length ≤ wordLimit := by decide +kernel
  exact ⟨_, restored, by decide +kernel, ⟨reachable, ordered, rfl, rfl, fits⟩,
    reachable.extend_preserves ordered rfl rfl fits⟩

end Space

end GribCatalog
