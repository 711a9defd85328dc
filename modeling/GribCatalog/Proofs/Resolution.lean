import GribCatalog.Proofs.Growth
import GribCatalog.Proofs.Stream

/-! What becomes of a record in a space. It is found exactly when every dimension reads a value
that is on its axis, and otherwise the first dimension that fails is named. In a space that was
made of the record, by whatever steps, it is found where it was put. -/

namespace GribCatalog

variable {ρ : Type}

theorem forall₂_trans {α β γ : Type} {R : α → β → Prop} {S : β → γ → Prop} {T : α → γ → Prop}
    {as : List α} {bs : List β} {cs : List γ} (h : List.Forall₂ R as bs)
    (h' : List.Forall₂ S bs cs) (comp : ∀ a b c, R a b → S b c → T a c) :
    List.Forall₂ T as cs := by
  induction h generalizing cs with
  | nil =>
    cases h'
    exact .nil
  | cons hR _ ih =>
    obtain ⟨c, cs, hS, hrest, rfl⟩ := List.forall₂_cons_left_iff.mp h'
    exact .cons (comp _ _ _ hR hS) (ih hrest)

namespace Resolution

/-- The dimension reads a value from the record, and the axis has it. -/
def OnAxis (record : ρ) (p : Dimension ρ × Axis) : Prop :=
  ∃ v, p.1.extract record = .ok v ∧ v ∈ p.2.values

/-- The first dimension that the record has no place on. -/
def FailsFirst (record : ρ) (pairs : List (Dimension ρ × Axis)) (p : Dimension ρ × Axis) : Prop :=
  ∃ before after, pairs = before ++ p :: after ∧ (∀ q ∈ before, OnAxis record q) ∧
    ¬ OnAxis record p

theorem not_failsFirst_nil {record : ρ} {p : Dimension ρ × Axis} : ¬ FailsFirst record [] p := by
  rintro ⟨before, after, h, -⟩
  cases before <;> cases h

theorem failsFirst_cons_iff {record : ρ} {q p : Dimension ρ × Axis}
    {pairs : List (Dimension ρ × Axis)} :
    FailsFirst record (q :: pairs) p ↔
      (¬ OnAxis record q ∧ q = p) ∨ (OnAxis record q ∧ FailsFirst record pairs p) := by
  constructor
  · rintro ⟨before, after, h, hbefore, hp⟩
    rcases List.cons_eq_append_iff.mp h with ⟨rfl, hhead⟩ | ⟨before, rfl, htail⟩
    · cases hhead
      exact .inl ⟨hp, rfl⟩
    · rw [List.forall_mem_cons] at hbefore
      exact .inr ⟨hbefore.1, before, after, htail, hbefore.2, hp⟩
  · rintro (⟨hq, rfl⟩ | ⟨hq, before, after, rfl, hbefore, hp⟩)
    · exact ⟨[], pairs, rfl, by simp, hq⟩
    · exact ⟨q :: before, after, rfl, List.forall_mem_cons.mpr ⟨hq, hbefore⟩, hp⟩

theorem cons_eq_miss_iff {i : Nat} {r : Resolution} {name : String} {v : AxisValue} :
    r.cons i = miss name v ↔ r = miss name v := by
  cases r <;> simp [cons]

theorem cons_eq_unextractable_iff {i : Nat} {r : Resolution} {name : String} {e : ExtractFault} :
    r.cons i = unextractable name e ↔ r = unextractable name e := by
  cases r <;> simp [cons]

theorem ofRecord_eq_miss_iff {record : ρ} {pairs : List (Dimension ρ × Axis)} {name : String}
    {v : AxisValue} :
    ofRecord record pairs = miss name v ↔
      ∃ p, FailsFirst record pairs p ∧ p.1.name = name ∧ p.1.extract record = .ok v := by
  induction pairs with
  | nil => simp [ofRecord, not_failsFirst_nil]
  | cons q pairs ih =>
    obtain ⟨d, a⟩ := q
    cases hv : d.extract record with
    | error e => simp [ofRecord, hv, failsFirst_cons_iff, OnAxis]
    | ok w =>
      by_cases hw : w ∈ a.values
      · obtain ⟨i, hi⟩ := Axis.exists_index hw
        simp [ofRecord, hv, hi, hw, failsFirst_cons_iff, OnAxis, cons_eq_miss_iff, ih]
      · have hi : a.index? w = none := Axis.lastIndex?_eq_none_iff.mpr hw
        simp [ofRecord, hv, hi, hw, failsFirst_cons_iff, OnAxis]

theorem ofRecord_eq_unextractable_iff {record : ρ} {pairs : List (Dimension ρ × Axis)}
    {name : String} {e : ExtractFault} :
    ofRecord record pairs = unextractable name e ↔
      ∃ p, FailsFirst record pairs p ∧ p.1.name = name ∧ p.1.extract record = .error e := by
  induction pairs with
  | nil => simp [ofRecord, not_failsFirst_nil]
  | cons q pairs ih =>
    obtain ⟨d, a⟩ := q
    cases hv : d.extract record with
    | error f => simp [ofRecord, hv, failsFirst_cons_iff, OnAxis]
    | ok w =>
      by_cases hw : w ∈ a.values
      · obtain ⟨i, hi⟩ := Axis.exists_index hw
        simp [ofRecord, hv, hi, hw, failsFirst_cons_iff, OnAxis, cons_eq_unextractable_iff, ih]
      · have hi : a.index? w = none := Axis.lastIndex?_eq_none_iff.mpr hw
        simp [ofRecord, hv, hi, hw, failsFirst_cons_iff, OnAxis]

theorem exists_found_iff {record : ρ} {pairs : List (Dimension ρ × Axis)} :
    (∃ indices, ofRecord record pairs = found indices) ↔ ∀ p ∈ pairs, OnAxis record p := by
  simp only [ofRecord_eq_found_iff]
  induction pairs with
  | nil => simp
  | cons p pairs ih =>
    rw [List.forall_mem_cons, ← ih]
    simp only [List.forall₂_cons_left_iff]
    constructor
    · rintro ⟨_, i, rest, ⟨v, hv, hi⟩, hrest, rfl⟩
      exact ⟨⟨v, hv, List.mem_of_getElem? (Axis.getElem?_of_lastIndex? hi)⟩, rest, hrest⟩
    · rintro ⟨⟨v, hv, hmem⟩, rest, hrest⟩
      obtain ⟨i, hi⟩ := Axis.exists_index hmem
      exact ⟨i :: rest, i, rest, ⟨v, hv, hi⟩, hrest, rfl⟩

end Resolution

namespace Survey

inductive Met (dimensions : List (Dimension ρ)) : List ρ → Survey ρ → Prop
  | start {s : Survey ρ} : start dimensions 0 = .ok s → Met dimensions [] s
  | feed {records : List ρ} {s : Survey ρ} (piece : Option BuildOptions × List ρ) :
    Met dimensions records s → Met dimensions (records ++ piece.2) (s.feed piece)
  | seed {records : List ρ} {s : Survey ρ} (axes : List Axis) :
    Met dimensions records s → Met dimensions records (s.seed axes).1

theorem gatherings_feed (s : Survey ρ) (piece : Option BuildOptions × List ρ) :
    (s.feed piece).gatherings =
      s.gatherings.map fun g => piece.2.foldl Gathering.offer g := by
  obtain ⟨_ | options, records⟩ := piece
  · exact gatherings_foldl_accumulate records s
  · exact gatherings_accumulateBatch records s options

theorem base_feed (s : Survey ρ) (piece : Option BuildOptions × List ρ) :
    (s.feed piece).base = s.base := by
  obtain ⟨_ | options, records⟩ := piece
  · exact base_foldl_accumulate records s
  · exact base_accumulateBatch records s options

structure Covers (dimensions : List (Dimension ρ)) (records : List ρ) (s : Survey ρ) : Prop where
  sound : s.Sound
  base : s.base = 0
  dimensions : s.gatherings.map Gathering.dimension = dimensions
  values : ∀ g ∈ s.gatherings, ∀ r ∈ records, ∀ v, g.dimension.extract r = .ok v → v ∈ g.values

variable {dimensions : List (Dimension ρ)} {records : List ρ} {s : Survey ρ}

theorem Covers.feed (h : s.Covers dimensions records) (piece : Option BuildOptions × List ρ) :
    (s.feed piece).Covers dimensions (records ++ piece.2) where
  sound := by
    constructor
    · rw [gatherings_feed]
      simpa using h.sound.nonempty
    · intro g hg
      rw [gatherings_feed] at hg
      obtain ⟨g, hmem, rfl⟩ := List.mem_map.mp hg
      exact Gathering.nodup_foldl_offer (h.sound.nodup g hmem) piece.2
  base := (base_feed s piece).trans h.base
  dimensions := by
    rw [gatherings_feed, List.map_map, ← h.dimensions]
    exact List.map_congr_left fun g _ => Gathering.foldl_offer_dimension piece.2 g
  values g hg r hr v hv := by
    rw [gatherings_feed] at hg
    obtain ⟨g, hmem, rfl⟩ := List.mem_map.mp hg
    rw [Gathering.foldl_offer_dimension] at hv
    rw [Gathering.mem_foldl_offer]
    rcases List.mem_append.mp hr with hr | hr
    · exact .inl (h.values g hmem r hr v hv)
    · exact .inr ⟨r, hr, hv⟩

theorem Covers.seed (h : s.Covers dimensions records) (axes : List Axis) :
    (s.seed axes).1.Covers dimensions records where
  sound := h.sound.seed axes
  base := (base_seed s axes).trans h.base
  dimensions := (dimensions_seed s axes).trans h.dimensions
  values g hg r hr v hv := by
    obtain ⟨g', hg', values, rfl⟩ := List.exists_of_forall₂ (forall₂_seed s axes) hg
    rw [Gathering.foldl_add_dimension] at hv
    exact Gathering.mem_foldl_add.mpr (.inl (h.values g' hg' r hr v hv))

theorem Met.covers (h : Met dimensions records s) : s.Covers dimensions records := by
  induction h with
  | start h =>
    exact ⟨.of_start h, Space.base_of_start h, Space.dimensions_of_start h, by simp⟩
  | feed piece _ ih => exact ih.feed piece
  | seed axes _ ih => exact ih.seed axes

namespace Covers

theorem zip_axes (h : s.Covers dimensions records) (options : BuildOptions) :
    dimensions.zip (s.finish options).axes =
      s.gatherings.map fun g => (g.dimension, g.axis) := by
  rw [← h.dimensions]
  exact List.zip_map'

theorem accepted (h : s.Covers dimensions records) (options : BuildOptions) :
    checkDimensions (s.finish options).axes dimensions = .ok () := by
  rw [checkDimensions_eq_ok_iff, ← h.dimensions, Survey.finish, List.forall₂_map_left_iff,
    List.forall₂_map_right_iff, List.forall₂_same]
  exact fun _ _ => rfl

theorem covers (h : s.Covers dimensions records) (options : BuildOptions) :
    ∀ r ∈ records, Resolution.Covers r (dimensions.zip (s.finish options).axes) := by
  intro r hr q hq v hv
  rw [h.zip_axes] at hq
  obtain ⟨g, hg, rfl⟩ := List.mem_map.mp hq
  exact Dimension.mem_sort.mpr (h.values g hg r hr v hv)

end Covers

end Survey

namespace Entry.Places

/-- The values of a record are those that its indices stand for. -/
theorem forall₂_iff {dimensions : List (Dimension ρ)} {axes : List Axis} {r : ρ}
    {indices : List Nat} (arity : axes.length = dimensions.length) :
    List.Forall₂ (fun q i => ∃ v, q.1.extract r = .ok v ∧ q.2.values[i]? = some v)
        (dimensions.zip axes) indices ↔
      ∃ values, List.Forall₂ (fun d v => d.extract r = .ok v) dimensions values ∧
        indices.length = axes.length ∧
        (indices.zip axes).mapM (fun (i, a) => a.values[i]?) = some values := by
  induction dimensions generalizing axes indices with
  | nil =>
    obtain rfl := List.length_eq_zero_iff.mp arity
    simp
  | cons d dimensions ih =>
    obtain ⟨a, axes, rfl⟩ := List.exists_cons_of_length_eq_add_one arity
    simp only [List.zip_cons_cons, List.forall₂_cons_left_iff]
    constructor
    · rintro ⟨i, rest, ⟨v, hv, hi⟩, hrest, rfl⟩
      obtain ⟨values, hvalues, hlength, hmap⟩ := (ih (Nat.succ.inj arity)).mp hrest
      refine ⟨v :: values, ⟨v, values, hv, hvalues, rfl⟩, congrArg (· + 1) hlength, ?_⟩
      simp only [List.zip_cons_cons, List.mapM_cons, hi, hmap]
      rfl
    · rintro ⟨_, ⟨v, values, hv, hvalues, rfl⟩, hlength, hmap⟩
      obtain ⟨i, rest, rfl⟩ := List.exists_cons_of_length_eq_add_one hlength
      simp only [List.zip_cons_cons, List.mapM_cons, Option.bind_eq_bind, Option.bind_eq_some_iff,
        Option.pure_def, Option.some.injEq, List.cons.injEq] at hmap
      obtain ⟨_, hi, _, hrest, rfl, rfl⟩ := hmap
      have hrest := (ih (Nat.succ.inj arity)).mpr ⟨_, hvalues, Nat.succ.inj hlength, hrest⟩
      exact ⟨i, rest, ⟨_, hv, hi⟩, hrest, rfl⟩

variable [Located ρ]

/-- An entry that is carried over is the entry of the same record on the new axes. -/
theorem carried {dimensions : List (Dimension ρ)} {s t : Space} {p : ρ × Nat} {e e' : Entry}
    (h : Places (dimensions.zip s.axes) p e) (old : s.axes.length = dimensions.length)
    (new : t.axes.length = dimensions.length) (carried : Carried s t e e') :
    Places (dimensions.zip t.axes) p e' := by
  refine ⟨carried.position.trans h.position, carried.location.trans h.location, ?_⟩
  obtain ⟨values, hold, hnew⟩ := carried.values
  obtain ⟨values', hvalues', hlength, hmap⟩ := (forall₂_iff old).mp h.indices
  have hvalues : s.valuesAt? e.indices = some values' := (if_pos hlength).trans hmap
  obtain rfl : values = values' := Option.some.inj (hold.symm.trans hvalues)
  unfold Space.valuesAt? at hnew
  split at hnew
  · next hlength => exact (forall₂_iff new).mpr ⟨values, hvalues', hlength, hnew⟩
  · cases hnew

end Entry.Places

namespace Space

variable {dimensions : List (Dimension ρ)} {records : List ρ} {s t : Space}

structure Resolves (s : Space) (dimensions : List (Dimension ρ)) (record : ρ)
    (r : Resolution) : Prop where
  found : (∃ t, r = .found t) ↔ ∀ p ∈ dimensions.zip s.axes, Resolution.OnAxis record p
  indices : ∀ t, r = .found t →
    List.Forall₂ (fun p i => i < p.2.size ∧ ∃ v, p.1.extract record = .ok v ∧
      p.2.values[i]? = some v) (dimensions.zip s.axes) t
  unextractable : ∀ name e, r = .unextractable name e ↔
    ∃ p, Resolution.FailsFirst record (dimensions.zip s.axes) p ∧ p.1.name = name ∧
      p.1.extract record = .error e
  miss : ∀ name v, r = .miss name v ↔
    ∃ p, Resolution.FailsFirst record (dimensions.zip s.axes) p ∧ p.1.name = name ∧
      p.1.extract record = .ok v
  lookup : s.lookup dimensions record =
    match r with
    | .found t => .ok (some t)
    | .miss _ _ => .ok none
    | .unextractable name e => .error (.extraction name e)

theorem resolves_of_resolve {f : ρ → Resolution} (h : s.resolve dimensions = .ok f) (record : ρ) :
    s.Resolves dimensions record (f record) := by
  obtain ⟨_, accepted, hf⟩ := Except.bind_eq_ok_iff.mp h
  cases hf
  constructor
  case found => exact Resolution.exists_found_iff
  case indices =>
    intro t ht
    refine (Resolution.ofRecord_eq_found_iff.mp ht).imp ?_
    rintro p i ⟨v, hv, hi⟩
    exact ⟨Axis.lt_size_of_index? hi, v, hv, Axis.getElem?_of_lastIndex? hi⟩
  case unextractable => exact fun _ _ => Resolution.ofRecord_eq_unextractable_iff
  case miss => exact fun _ _ => Resolution.ofRecord_eq_miss_iff
  case lookup =>
    rw [Space.lookup, h]
    cases Resolution.ofRecord record (dimensions.zip s.axes) <;> rfl

variable [Located ρ]

/-- Spaces that dimensions come to make of records: built of them at once, published after the two
passes over them, restored, or extended by the last of them. -/
inductive BuiltFrom (dimensions : List (Dimension ρ)) : List ρ → Space → Prop
  | build {records : List ρ} {options : BuildOptions} {s : Space} {report : Report} :
    Space.build dimensions records options = .ok (s, report) → BuiltFrom dimensions records s
  | publish {records : List ρ} {survey : Survey ρ} (options : BuildOptions) :
    survey.Met dimensions records →
      BuiltFrom dimensions records
        (records.foldl Placement.assign (survey.finish options)).publish.1
  | restore {records : List ρ} {s t : Space} :
    BuiltFrom dimensions records s → Space.restore s.snapshot = .ok t →
      BuiltFrom dimensions records t
  | extend {records more : List ρ} {options : BuildOptions} {s t : Space} {report : Report} :
    BuiltFrom dimensions records s → s.extend dimensions more options = .ok (t, report) →
      BuiltFrom dimensions (records ++ more) t

structure Indexes (dimensions : List (Dimension ρ)) (records : List ρ) (s : Space) : Prop where
  sound : s.Sound
  accepted : checkDimensions s.axes dimensions = .ok ()
  covers : ∀ r ∈ records, Resolution.Covers r (dimensions.zip s.axes)
  places : List.Forall₂ (Entry.Places (dimensions.zip s.axes))
    (records.zipIdx.filter fun p => Dimension.allRead dimensions p.1) s.entries
  next : s.nextPosition = records.length

theorem nextPosition_eq {pairs : List (Dimension ρ × Axis)}
    (places : List.Forall₂ (Entry.Places pairs)
      (records.zipIdx.filter fun p => Dimension.allRead dimensions p.1) s.entries)
    (consumed : s.consumed = records.length) (fits : records.length < wordLimit) :
    s.nextPosition = records.length := by
  rw [nextPosition, consumed]
  refine foldl_max_of_le fun n hn => ?_
  obtain ⟨e, he, rfl⟩ := List.mem_map.mp hn
  obtain ⟨p, hp, hplaces⟩ := List.exists_of_forall₂ places he
  have hlt := (List.mem_zipIdx (List.mem_filter.mp hp).1).2.1
  rw [hplaces.position, positionAfter_of_lt (by omega)]
  omega

theorem indexes_of_publish {survey : Survey ρ} (h : survey.Covers dimensions records)
    (fits : records.length < wordLimit) (options : BuildOptions) :
    Indexes dimensions records
      (records.foldl Placement.assign (survey.finish options)).publish.1 := by
  have sound := Placement.Sound.finish h.sound options
  have accepted := h.accepted options
  have covers := h.covers options
  have hdimensions : (survey.finish options).dimensions = dimensions := h.dimensions
  have hbase : (survey.finish options).position = 0 := h.base
  have hnone : (survey.finish options).entries = [] := rfl
  generalize survey.finish options = p at *
  have hfits : p.position + records.length < wordLimit := by
    rw [hbase]
    omega
  have haxes := Placement.foldl_assign_axes records p
  have places : List.Forall₂ (Entry.Places (dimensions.zip p.axes))
      (records.zipIdx.filter fun p => Dimension.allRead dimensions p.1)
      (records.foldl Placement.assign p).entries := by
    have places := Placement.places_entriesOf covers 0
    rw [List.map_fst_zip (length_of_checkDimensions accepted).ge] at places
    rwa [Placement.foldl_assign_entries hfits.le, hnone, hbase, hdimensions, List.nil_append]
  rw [← haxes] at accepted covers places
  refine ⟨(sound.foldl_assign records).publish, accepted, covers, places, ?_⟩
  refine nextPosition_eq places ?_ fits
  refine (Placement.foldl_assign_position hfits).trans ?_
  rw [hbase, Nat.zero_add]

theorem Indexes.extend (h : Indexes dimensions records s) {more : List ρ} {options : BuildOptions}
    {report : Report} (fits : (records ++ more).length < wordLimit)
    (extended : s.extend dimensions more options = .ok (t, report)) :
    Indexes dimensions (records ++ more) t := by
  rw [List.length_append] at fits
  obtain ⟨_, valid, -⟩ := Except.bind_eq_ok_iff.mp extended
  have hfits : s.nextPosition + more.length ≤ wordLimit := by
    rw [h.next]
    omega
  obtain ⟨t', report', hextend, hextends⟩ := h.sound.exists_extend h.accepted valid hfits
  cases extended.symm.trans hextend
  obtain ⟨kept, hkept, hentries⟩ := hextends.entries
  have arity := length_of_checkDimensions h.accepted
  have places : List.Forall₂ (Entry.Places (dimensions.zip t.axes))
      ((records ++ more).zipIdx.filter fun p => Dimension.allRead dimensions p.1) t.entries := by
    have kept := forall₂_trans h.places hkept fun _ _ _ hp hc =>
      hp.carried arity (hextends.length_axes arity) hc
    have added := hextends.places arity
    rw [h.next] at added
    rw [hentries, List.zipIdx_append, List.filter_append, h.next, Nat.zero_add]
    exact List.rel_append kept added
  refine ⟨h.sound.extend extended, hextends.accepted arity, fun r hr => ?_, places, ?_⟩
  · rcases List.mem_append.mp hr with hr | hr
    · intro q hq v hv
      obtain ⟨p, hp, rfl⟩ := hextends.exists_pair arity hq
      exact Dimension.mem_widened.mpr (.inl (h.covers r hr p hp v hv))
    · exact hextends.covers arity r hr
  · refine nextPosition_eq places ?_ (by rwa [List.length_append])
    rw [hextends.consumed (by rw [h.next]; omega), h.next, List.length_append]

theorem Indexes.restore (h : Indexes dimensions records s)
    (restored : Space.restore s.snapshot = .ok t) : Indexes dimensions records t := by
  rw [h.sound.restore_snapshot] at restored
  cases restored
  exact ⟨⟨h.sound.nonempty, h.sound.nodup, h.sound.inRange, h.sound.cells⟩, h.accepted, h.covers,
    h.places, (nextPosition_consumed s).trans h.next⟩

/-- Whatever steps a space has come about by, it has what its dimensions read from the records, as
long as the positions are words. -/
theorem BuiltFrom.indexes (h : BuiltFrom dimensions records s)
    (fits : records.length < wordLimit) : Indexes dimensions records s := by
  induction h with
  | @build records options s report built =>
    obtain ⟨-, -, built⟩ := Except.bind_eq_ok_iff.mp built
    obtain ⟨survey, started, built⟩ := Except.bind_eq_ok_iff.mp built
    obtain rfl := congrArg Prod.fst (Except.ok.inj built)
    have met : survey.Met dimensions [] := .start started
    exact indexes_of_publish (met.feed (some options, records)).covers fits options
  | publish options met => exact indexes_of_publish met.covers fits options
  | restore _ restored ih => exact (ih fits).restore restored
  | extend _ extended ih =>
    have hshort := fits
    rw [List.length_append] at hshort
    exact (ih (by omega)).extend fits extended

/-- What a space says of the record at a position that it was made of: the indices of the entry at
this position, or the fault of a dimension if there is none. -/
structure Recalls (s : Space) (position : Nat) (r : Resolution) : Prop where
  stored : ∀ e ∈ s.entries, e.position = position → r = .found e.indices
  skipped : (∀ e ∈ s.entries, e.position ≠ position) → ∃ name e, r = .unextractable name e

/-- A record is found where the space has put it. -/
theorem Indexes.recalls (h : Indexes dimensions records s) {i : Nat} {record : ρ}
    (input : records[i]? = some record) :
    s.Recalls i (.ofRecord record (dimensions.zip s.axes)) := by
  have arity := length_of_checkDimensions h.accepted
  constructor
  case stored =>
    rintro e he rfl
    obtain ⟨p, hp, places⟩ := List.exists_of_forall₂ h.places he
    have hp := List.mem_zipIdx_iff_getElem?.mp (List.mem_filter.mp hp).1
    rw [← places.position, input, Option.some.injEq] at hp
    subst hp
    have nodup : ∀ q ∈ dimensions.zip s.axes, q.2.values.Nodup := fun q hq =>
      h.sound.nodup q.2 (List.of_mem_zip hq).2
    refine Resolution.ofRecord_eq_found_iff.mpr
      (((List.forall₂_and_left _ _).mpr ⟨nodup, places.indices⟩).imp ?_)
    rintro q i ⟨nodup, v, hv, hi⟩
    exact ⟨v, hv, (Axis.index?_eq_some_iff nodup).mpr hi⟩
  case skipped =>
    intro absent
    cases hread : Dimension.allRead dimensions record with
    | true =>
      have hmem : (record, i) ∈ records.zipIdx.filter fun p =>
          Dimension.allRead dimensions p.1 :=
        List.mem_filter.mpr ⟨List.mem_zipIdx_iff_getElem?.mpr input, hread⟩
      obtain ⟨e, he, places⟩ := List.exists_of_forall₂ h.places.flip hmem
      exact absurd places.position (absent e he)
    | false =>
      rw [← List.map_fst_zip arity.ge] at hread
      obtain ⟨p, -, e, -, hfailed⟩ := Resolution.ofRecord_unextractable_of_covers
        (h.covers record (List.mem_of_getElem? input)) hread
      exact ⟨p.1.name, e, hfailed⟩

/-- In every space, a record is found exactly when all dimensions have a place for it, and the
first dimension that has none is named otherwise. A space that has come about from records says of
each of them what it has stored. -/
theorem resolve_never_aliases (s : Space) (dimensions : List (Dimension ρ)) :
    (∀ f, s.resolve dimensions = .ok f → ∀ record, s.Resolves dimensions record (f record)) ∧
    ∀ records, BuiltFrom dimensions records s → records.length < wordLimit →
      ∃ f, s.resolve dimensions = .ok f ∧
        ∀ i record, records[i]? = some record → s.Recalls i (f record) := by
  refine ⟨fun f h record => resolves_of_resolve h record, fun records built fits => ?_⟩
  have indexes := built.indexes fits
  refine ⟨_, Except.bind_eq_ok_iff.mpr ⟨(), indexes.accepted, rfl⟩, fun i record input => ?_⟩
  exact indexes.recalls input

/-- A space is built of a field with a level and one without, restored, and extended by the first
again. It finds these where it has put them, misses the run of another field, and where a field
has neither level nor run it names the level. -/
theorem resolve_never_aliases_surfaces :
    let field (time : Int) (level : Option Surface) : Field :=
      ⟨0, 0, 28, 0, 98, ⟨time, 0⟩, 0, ⟨0, 0, 0⟩, .instant 0, level, none⟩
    let surface : Surface := ⟨100, .zero⟩
    let dimensions := [(FieldDimension.vertical none true).dimension,
      FieldDimension.runtime.dimension]
    let records := [field 0 (some surface), field 0 none] ++ [field 0 (some surface)]
    ∃ s f, BuiltFrom dimensions records s ∧ records.length < wordLimit ∧
      s.resolve dimensions = .ok f ∧
      (∀ i record, records[i]? = some record → s.Recalls i (f record)) ∧
      (∀ record, s.Resolves dimensions record (f record)) ∧
      f (field 3600 (some surface)) = .miss "runtime" (.runtime ⟨3600, 0⟩) ∧
      f (field 3600 none) = .unextractable "vertical" (.missing "record has no fixed surface") := by
  intro field surface dimensions records
  let first := [field 0 (some surface), field 0 none]
  have ordered : ∀ d ∈ dimensions, d.Ordered := by
    simp [dimensions, FieldDimension.ordered]
  have nonempty : dimensions ≠ [] := List.cons_ne_nil _ _
  have fits : records.length < wordLimit := by decide
  have hfirst : first.length < wordLimit := by decide
  have built : BuiltFrom dimensions records (ofRecords dimensions records .lastWins) := by
    have hbuild : build dimensions first {} = _ := build_eq nonempty rfl hfirst
    have restored := restore_snapshot_ofRecords nonempty hfirst .lastWins
    have hextend : (ofRecords dimensions first .lastWins).extend dimensions
        [field 0 (some surface)] {} = _ := extend_ofRecords nonempty ordered rfl fits .lastWins
    exact .extend (.restore (.build hbuild) restored) hextend
  obtain ⟨f, resolved, recalls⟩ := (resolve_never_aliases _ _).2 _ built fits
  have resolves := (resolve_never_aliases _ _).1 f resolved
  refine ⟨_, f, built, fits, resolved, recalls, resolves, ?_⟩
  obtain ⟨_, -, hf⟩ := Except.bind_eq_ok_iff.mp resolved
  cases hf
  exact ⟨by decide +kernel, by decide +kernel⟩

end Space

end GribCatalog
