import GribCatalog.Proofs.Invariant
import GribCatalog.Proofs.Lookup
import GribCatalog.Proofs.Update

/-! What an update leaves alone. Values that no new field has are held by the same
records after an update as before it. Which of these records answers for the values is
up to the policy of the space, and an update that adds files puts the policy of its own
settings in the place of the stored one. -/

namespace GribCatalog

/-- Which record an entry is of, whatever the axes. -/
def Entry.source (e : Entry) : Nat × Location :=
  (e.position, e.location)

theorem Entry.exists_position {e : Entry} {entries : List Entry}
    (h : e.source ∈ entries.map source) : ∃ x ∈ entries, x.position = e.position := by
  obtain ⟨x, hx, hsame⟩ := List.mem_map.mp h
  exact ⟨x, hx, congrArg Prod.fst hsame⟩

namespace Entry.Wins

variable {policy : DuplicatePolicy} {w w' : Entry} {entries entries' : List Entry}

/-- One winner does not stand before another that stands behind it. -/
theorem not_crossed {before after' : List Entry}
    (earlier : match policy with
      | .lastWins => ∀ e ∈ before, e.position ≤ w.position
      | .firstWins => ∀ e ∈ before, w.position < e.position)
    (later : match policy with
      | .lastWins => ∀ e ∈ after', e.position < w'.position
      | .firstWins => ∀ e ∈ after', w'.position ≤ e.position)
    (h : w.source ∈ after'.map source) : w'.source ∉ before.map source := by
  intro h'
  obtain ⟨x, hx, hxw⟩ := exists_position h
  obtain ⟨y, hy, hyw⟩ := exists_position h'
  cases policy with
  | lastWins =>
    have := earlier y hy
    have := later x hx
    omega
  | firstWins =>
    have := earlier y hy
    have := later x hx
    omega

/-- The winner of some entries stands at one place among them only, whatever their indices. -/
theorem source_eq (h : Wins policy w entries) (h' : Wins policy w' entries')
    (same : entries'.map source = entries.map source) : w'.source = w.source := by
  obtain ⟨before, after, rfl, h⟩ := h
  obtain ⟨before', after', rfl, h'⟩ := h'
  have crossed := @not_crossed policy w w' before after' (by cases policy <;> exact h.1)
    (by cases policy <;> exact h'.2)
  have crossed' := @not_crossed policy w' w before' after (by cases policy <;> exact h'.1)
    (by cases policy <;> exact h.2)
  rw [List.map_append, List.map_cons, List.map_append, List.map_cons] at same
  -- if the winners stood at different places, each would be on the wrong side of the other
  rcases List.append_eq_append_iff.mp same with ⟨mid, hbefore, hrest⟩ | ⟨mid, hbefore, hrest⟩
  · rcases List.cons_eq_append_iff.mp hrest with ⟨-, hhead⟩ | ⟨mid, rfl, hafter⟩
    · exact (List.cons.inj hhead).1.symm
    · exact absurd (by simp [hbefore]) (crossed (by simp [hafter]))
  · rcases List.cons_eq_append_iff.mp hrest with ⟨-, hhead⟩ | ⟨mid, rfl, hafter⟩
    · exact (List.cons.inj hhead).1
    · exact absurd (by simp [hbefore]) (crossed' (by simp [hafter]))

end Entry.Wins

namespace Space

theorem values_mapM {is js : List Nat} {old new : List Axis} (axes : old.length = new.length)
    (h : (is.zip (old.zip new)).mapM (fun (i, a, b) => a.values[i]?.bind b.index?) = some js) :
    (js.zip new).mapM (fun (i, a) => a.values[i]?) =
      (is.zip old).mapM fun (i, a) => a.values[i]? := by
  induction new generalizing is js old with
  | nil =>
    obtain rfl := List.length_eq_zero_iff.mp axes
    rw [List.zip_nil_right, List.zip_nil_right]
  | cons b new ih =>
    obtain ⟨a, old, rfl⟩ := List.exists_cons_of_length_eq_add_one axes
    cases is with
    | nil =>
      cases h
      rfl
    | cons i is =>
      simp only [List.zip_cons_cons, List.mapM_cons, Option.bind_eq_bind,
        Option.bind_eq_some_iff, Option.pure_def, Option.some.injEq] at h
      obtain ⟨j, ⟨v, hv, hj⟩, js, hjs, rfl⟩ := h
      have hb : b.values[j]? = some v := Axis.getElem?_of_lastIndex? hj
      simp only [List.zip_cons_cons, List.mapM_cons, hv, hb, ih (Nat.succ.inj axes) hjs]

theorem values_of_indices {axes : List Axis} {values : List AxisValue} {indices : List Nat}
    (length : values.length = axes.length)
    (h : (values.zip axes).mapM (fun (v, a) => a.index? v) = some indices) :
    indices.length = axes.length ∧
      (indices.zip axes).mapM (fun (i, a) => a.values[i]?) = some values := by
  induction axes generalizing values indices with
  | nil =>
    obtain rfl := List.length_eq_zero_iff.mp length
    cases h
    exact ⟨rfl, rfl⟩
  | cons a axes ih =>
    obtain ⟨v, values, rfl⟩ := List.exists_cons_of_length_eq_add_one length
    simp only [List.zip_cons_cons, List.mapM_cons, Option.bind_eq_bind, Option.bind_eq_some_iff,
      Option.pure_def, Option.some.injEq] at h
    obtain ⟨i, hi, is, his, rfl⟩ := h
    obtain ⟨hlength, hvalues⟩ := ih (Nat.succ.inj length) his
    refine ⟨congrArg (· + 1) hlength, ?_⟩
    have hv : a.values[i]? = some v := Axis.getElem?_of_lastIndex? hi
    simp only [List.zip_cons_cons, List.mapM_cons, hv, hvalues]
    rfl

theorem inRange_of_values {axes : List Axis} {values : List AxisValue} {indices : List Nat}
    (length : indices.length = axes.length)
    (h : (indices.zip axes).mapM (fun (i, a) => a.values[i]?) = some values) :
    List.Forall₂ (· < ·) indices (axes.map Axis.size) := by
  induction axes generalizing indices values with
  | nil =>
    obtain rfl := List.length_eq_zero_iff.mp length
    exact .nil
  | cons a axes ih =>
    obtain ⟨i, indices, rfl⟩ := List.exists_cons_of_length_eq_add_one length
    simp only [List.zip_cons_cons, List.mapM_cons, Option.bind_eq_bind, Option.bind_eq_some_iff,
      Option.pure_def, Option.some.injEq] at h
    obtain ⟨v, hv, rest, hrest, rfl⟩ := h
    exact .cons (List.getElem?_eq_some_iff.mp hv).1 (ih (Nat.succ.inj length) hrest)

/-- Indices stand for the values that they are the indices of. -/
theorem Sound.valuesAt?_eq_some_iff {s : Space} (h : s.Sound) {indices : List Nat}
    {values : List AxisValue} :
    s.valuesAt? indices = some values ↔ s.indicesOf? values = some indices := by
  constructor
  · intro hvalues
    unfold valuesAt? at hvalues
    split at hvalues
    · next hlength =>
      obtain ⟨values', hvalues', hcount, hindices⟩ :=
        exists_values h.nodup (inRange_of_values hlength hvalues)
      rw [hvalues'] at hvalues
      cases hvalues
      exact (if_pos hcount).trans hindices
    · cases hvalues
  · intro hindices
    unfold indicesOf? at hindices
    split at hindices
    · next hcount =>
      obtain ⟨hlength, hvalues⟩ := values_of_indices hcount hindices
      exact (if_pos hlength).trans hvalues
    · cases hindices

def holding (s : Space) (values : List AxisValue) : List Entry :=
  s.entries.filter fun e => s.valuesAt? e.indices = some values

/-- The records of the values have an answer exactly when there are any, and it is the one that
the policy prefers. -/
theorem Sound.find?_cases {s : Space} (h : s.Sound) (values : List AxisValue) :
    (s.find? values = none ∧ s.holding values = []) ∨
      ∃ e, s.find? values = some e ∧ Entry.Wins s.policy e (s.holding values) := by
  have hholding (indices : List Nat) (hindices : s.indicesOf? values = some indices) :
      s.holding values = s.entries.filter fun e => e.indices = indices := by
    refine List.filter_congr fun e he => decide_eq_decide.mpr ?_
    rw [h.valuesAt?_eq_some_iff, hindices, Option.some.injEq, eq_comm]
  cases hindices : s.indicesOf? values with
  | none =>
    refine .inl ⟨by rw [find?, hindices, Option.bind_none], ?_⟩
    refine List.filter_eq_nil_iff.mpr fun e he => ?_
    rw [decide_eq_true_eq, h.valuesAt?_eq_some_iff, hindices]
    exact Option.some_ne_none _ ∘ Eq.symm
  | some indices =>
    rw [find?, hindices, Option.bind_some, hholding indices hindices]
    cases hcell : s.entryAt? indices with
    | none =>
      have hnone := mt (h.consistent.occupied indices).mpr (entryAt?_eq_none_iff.mp hcell)
      refine .inl ⟨rfl, List.filter_eq_nil_iff.mpr fun e he => ?_⟩
      simpa using fun heq => hnone ⟨e, he, heq⟩
    | some e => exact .inr ⟨e, rfl, wins_of_entryAt? h.cells hcell⟩

/-- Spaces of one policy have one answer for values that the same records have. -/
theorem Sound.find?_congr {s t : Space} (hs : s.Sound) (ht : t.Sound) {values : List AxisValue}
    (policy : t.policy = s.policy)
    (same : (t.holding values).map Entry.source = (s.holding values).map Entry.source) :
    (t.find? values).map Entry.source = (s.find? values).map Entry.source := by
  rcases hs.find?_cases values with ⟨hnone, hnil⟩ | ⟨e, he, wins⟩
  · rw [hnil, List.map_nil, List.map_eq_nil_iff] at same
    rcases ht.find?_cases values with ⟨hnone', -⟩ | ⟨e', -, wins'⟩
    · rw [hnone, hnone']
    · exact absurd wins'.mem (by simp [same])
  · rcases ht.find?_cases values with ⟨-, hnil'⟩ | ⟨e', he', wins'⟩
    · rw [hnil', List.map_nil, eq_comm, List.map_eq_nil_iff] at same
      exact absurd wins.mem (by simp [same])
    · rw [he, he', Option.map_some, Option.map_some, wins.source_eq (policy ▸ wins') same]

def under (s : Space) (policy : DuplicatePolicy) : Space :=
  assemble s.axes s.entries policy s.consumed

theorem Sound.under {s : Space} (h : s.Sound) (policy : DuplicatePolicy) :
    (s.under policy).Sound :=
  ⟨h.nonempty, h.nodup, h.inRange, rfl⟩

theorem Sound.under_policy {s : Space} (h : s.Sound) : s.under s.policy = s := by
  rw [Space.under, assemble, ← h.cells]

section Extend

variable {ρ : Type} [Located ρ] {dimensions : List (Dimension ρ)} {records : List ρ}
  {options : BuildOptions} {s t : Space} {report : Report}

/-- An entry that is carried over is of the same record and has the same values. -/
theorem valuesAt?_reindex? {e e' : Entry} (axes : s.axes.length = t.axes.length)
    (arity : e.indices.length = s.rank) (h : reindex? s.axes t.axes e = some e') :
    e'.source = e.source ∧ t.valuesAt? e'.indices = s.valuesAt? e.indices := by
  obtain ⟨indices, hindices, h⟩ := Option.bind_eq_some_iff.mp h
  cases h
  have hcount : indices.length = t.rank :=
    (inRange_mapM (arity.trans axes) axes hindices).length_eq.trans (List.length_map _)
  refine ⟨rfl, ?_⟩
  rw [valuesAt?, valuesAt?, if_pos hcount, if_pos arity]
  exact values_mapM axes hindices

theorem policy_of_restore {snapshot : Snapshot} (h : restore snapshot = .ok s) :
    s.policy = snapshot.policy := by
  obtain ⟨-, rfl⟩ := restore_eq_ok_iff.mp h
  rfl

theorem policy_of_extend (h : s.extend dimensions records options = .ok (t, report)) :
    t.policy = options.duplicatePolicy := by
  obtain ⟨p, kept, -, -, hpolicy, -, -, -, rfl⟩ := extend_eq_ok h
  exact (Placement.foldl_assign_policy records _).trans hpolicy

/-- An extension by records without some values leaves the values to the records that had them. -/
theorem Sound.holding_extend (hs : s.Sound)
    (h : s.extend dimensions records options = .ok (t, report)) {values : List AxisValue}
    (untouched : ∀ r ∈ records, dimensions.map (·.extract r) ≠ values.map .ok) :
    (t.holding values).map Entry.source = (s.holding values).map Entry.source := by
  have ht := hs.extend h
  obtain ⟨p, kept, hp, rfl, -, -, hlength, moved, rfl⟩ := extend_eq_ok h
  obtain ⟨added, hadded, hfound⟩ :=
    Placement.exists_foldl_assign records { p with entries := kept }
  generalize ht' : (records.foldl Placement.assign { p with entries := kept }).publish.1 = t at *
  have haxes : t.axes = p.axes := by
    rw [← ht']
    exact Placement.foldl_assign_axes records { p with entries := kept }
  have hentries : t.entries = kept ++ added := by
    rw [← ht']
    exact hadded
  -- the old entries are carried over with their values, and no new one has the values
  have keep : (kept.filter fun e => t.valuesAt? e.indices = some values).map Entry.source =
      (s.holding values).map Entry.source := by
    have carried : List.Forall₂ (fun e e' => e'.source = e.source ∧
        t.valuesAt? e'.indices = s.valuesAt? e.indices) s.entries kept := by
      refine ((List.forall₂_and_left _ _).mpr ⟨hs.inRange, moved⟩).imp fun e e' h => ?_
      obtain ⟨inRange, hmoved⟩ := h
      exact valuesAt?_reindex? (haxes ▸ hlength) (inRange.length_eq.trans (List.length_map _))
        (haxes ▸ hmoved)
    have filtered := List.rel_filter
      (p := fun e : Entry => decide (s.valuesAt? e.indices = some values))
      (q := fun e : Entry => decide (t.valuesAt? e.indices = some values))
      (fun e e' h => by simp [h.2]) carried
    rw [← List.forall₂_eq_eq_eq, List.forall₂_map_left_iff, List.forall₂_map_right_iff]
    exact (filtered.imp fun e e' h => h.1).flip
  have drop : added.filter (fun e => t.valuesAt? e.indices = some values) = [] := by
    refine List.filter_eq_nil_iff.mpr fun e he hvalues => ?_
    obtain ⟨r, hr, -, hindices⟩ := hfound e he
    rw [decide_eq_true_eq, ht.valuesAt?_eq_some_iff, indicesOf?, haxes] at hvalues
    split at hvalues
    · next hcount =>
      rw [rank, haxes] at hcount
      exact untouched r hr (Resolution.values_of_found hp.arity.symm hindices hcount hvalues)
    · cases hvalues
  rw [holding, hentries, List.filter_append, drop, List.append_nil, keep]

/-- Values that no record of an extension has are answered as the space would have answered them
under the policy of the extension. -/
theorem Sound.find?_extend (hs : s.Sound)
    (h : s.extend dimensions records options = .ok (t, report)) {values : List AxisValue}
    (untouched : ∀ r ∈ records, dimensions.map (·.extract r) ≠ values.map .ok) :
    (t.find? values).map Entry.source = ((s.under t.policy).find? values).map Entry.source :=
  (hs.under t.policy).find?_congr (hs.extend h) rfl (hs.holding_extend h untouched)

end Extend

end Space

namespace Document

def arrivals (d : Document) (fs : FileSystem) (s : Settings) (paths : List String) :
    Except InputFault (List Field) := do
  let found ← (s.withDocument d).files fs paths
  let harvest ← (s.withDocument d).harvest fs d.files.length (d.unlisted found)
  .ok harvest.fields

/-- None of the fields that an update adds records for has the values. -/
def Untouched (d : Document) (fs : FileSystem) (s : Settings) (paths : List String)
    (values : List AxisValue) : Prop :=
  ∀ dimensions fields, (s.withDocument d).fieldDimensions = .ok dimensions →
    d.arrivals fs s paths = .ok fields →
      ∀ f ∈ fields, dimensions.map (·.extract f) ≠ values.map .ok

variable {d d' : Document} {now : Instant} {fs : FileSystem} {s : Settings}
  {paths : List String} {new : Space}

/-- An update keeps the stored policy when there is nothing to add, and takes the policy of its
settings otherwise. A value that nothing new has is answered as the stored space would have
answered it under that policy, so with the same record where the policy is the stored one. -/
theorem update_untouched (h : d.update now fs s paths = .ok (d', new)) :
    ∃ found old, (s.withDocument d).files fs paths = .ok found ∧ d.toSpace = .ok old ∧
      d'.space.policy =
        (if d.unlisted found = [] then d.space.policy else s.index.duplicatePolicy) ∧
      ∀ values, d.Untouched fs s paths values →
        (new.find? values).map Entry.source =
            ((old.under d'.space.policy).find? values).map Entry.source ∧
          (d'.space.policy = d.space.policy →
            (new.find? values).map Entry.source = (old.find? values).map Entry.source) := by
  obtain ⟨dimensions, found, old, hdimensions, hfound, hold, h⟩ := update_eq_ok h
  have hsound : old.Sound := Space.sound_of_restore hold
  have hpolicy : old.policy = d.space.policy := Space.policy_of_restore hold
  have hunder : old.under d.space.policy = old := hpolicy ▸ hsound.under_policy
  refine ⟨found, old, hfound, hold, ?_⟩
  rcases h with ⟨hnone, rfl, rfl⟩ | ⟨hsome, hadd⟩
  · refine ⟨(if_pos hnone).symm, fun values _ => ⟨?_, fun _ => rfl⟩⟩
    rw [hunder]
  · obtain ⟨harvest, report, -, hharvest, hextend, -, hspace⟩ := addFiles_eq_ok hadd
    rw [hspace, if_neg hsome]
    refine ⟨Space.policy_of_extend hextend, fun values untouched => ?_⟩
    have harrivals : d.arrivals fs s paths = .ok harvest.fields :=
      Except.bind_eq_ok_iff.mpr
        ⟨found, hfound, Except.bind_eq_ok_iff.mpr ⟨harvest, hharvest, rfl⟩⟩
    have answered := hsound.find?_extend hextend
      (untouched dimensions harvest.fields hdimensions harrivals)
    refine ⟨answered, fun hsame => ?_⟩
    have hsame : new.policy = d.space.policy := hsame
    rw [answered, hsame, hunder]

/-- A catalog of a forecast that is given twice, and the forecast of the day after in another file
that is added under the stored policy. -/
theorem update_untouched_next_day :
    let fs : FileSystem := { root := .directory [("b", .file (some (Message.june 2)))] }
    let s : Settings := { index := { duplicatePolicy := .firstWins }, dimensions := ["runtime"] }
    let h := Harvest.ofItems none (scan 0 (Message.june 1 ++ Message.june 1))
    let d := (ofHarvest ⟨0, 0⟩ s [FieldDimension.runtime.dimension] ["a"] h).1
    let values := [AxisValue.runtime ⟨1685577600, 0⟩]
    ∃ d' new, d.update ⟨1, 0⟩ fs s ["b"] = .ok (d', new) ∧ d.Untouched fs s ["b"] values ∧
      d'.files = ["a", "b"] ∧ d'.space.policy = d.space.policy ∧
      (new.find? values).map Entry.source = some (0, ⟨0, 0, 75, 0⟩) := by
  intro fs s h d values
  have dimensions : s.fieldDimensions = .ok [FieldDimension.runtime.dimension] := rfl
  have found : s.files fs ["b"] = .ok ["b"] := rfl
  let g := (Harvest.ofItems none (scan 1 (Message.june 2))).append {}
  have harvested : s.harvest fs 1 ["b"] = .ok g := by
    refine Except.bind_eq_ok_iff.mpr ⟨none, rfl, ?_⟩
    exact Except.bind_eq_ok_iff.mpr ⟨Message.june 2, rfl, rfl⟩
  have fits : ∀ g, s.harvest fs 1 ["b"] = .ok g → (h.append g).Fits := by
    intro g' hg'
    cases harvested.symm.trans hg'
    exact ⟨by decide +kernel, by decide +kernel, by decide +kernel⟩
  have short : h.fields.length < wordLimit := by decide +kernel
  have updated : d.update ⟨1, 0⟩ fs s ["b"] =
      .ok (ofHarvest ⟨1, 0⟩ s [FieldDimension.runtime.dimension] ["a", "b"] (h.append g)) := by
    have numbered : ["a"].length < fileLimit := by decide
    have added := addFiles_ofHarvest dimensions numbered fits ⟨0, 0⟩ ⟨1, 0⟩
    rw [show ["a"].length = 1 from rfl, harvested] at added
    exact (update_ofHarvest dimensions short found ⟨0, 0⟩ ⟨1, 0⟩).trans added
  have untouched : d.Untouched fs s ["b"] values := by
    intro dims fields hdims hfields
    have arrivals : d.arrivals fs s ["b"] = .ok g.fields :=
      Except.bind_eq_ok_iff.mpr ⟨["b"], rfl, Except.bind_eq_ok_iff.mpr ⟨g, harvested, rfl⟩⟩
    cases dimensions.symm.trans hdims
    cases arrivals.symm.trans hfields
    decide +kernel
  obtain ⟨-, old, -, stored, -, answers⟩ := update_untouched updated
  refine ⟨_, _, updated, untouched, rfl, rfl, ?_⟩
  rw [(answers values untouched).2 rfl]
  cases stored.symm.trans (toSpace_ofHarvest (List.cons_ne_nil _ _) short ⟨0, 0⟩)
  decide +kernel

/-- Two fields share a cell, and a file without any field is added under the other policy: the
policy is gone, and the cell has another answer. -/
theorem update_replaces_policy :
    let run : AxisValue := .runtime ⟨0, 0⟩
    let snapshot : Snapshot := ⟨1, .firstWins, [⟨"runtime", .runtime, [run]⟩],
      [⟨0, ⟨0, 0, 75, 0⟩, [0]⟩, ⟨1, ⟨0, 75, 75, 0⟩, [0]⟩], 2⟩
    let d : Document :=
      { created := ⟨0, 0⟩, files := ["a"], dimensions := ["runtime"], report := {}
        space := snapshot }
    let fs : FileSystem := { root := .directory [("b", .file (some []))] }
    ∃ old d' new, d.toSpace = .ok old ∧ d.update ⟨1, 0⟩ fs {} ["b"] = .ok (d', new) ∧
      d.Untouched fs {} ["b"] [run] ∧ d.space.policy = .firstWins ∧
      d'.space.policy = .lastWins ∧
      (old.find? [run]).map Entry.source = some (0, ⟨0, 0, 75, 0⟩) ∧
      (new.find? [run]).map Entry.source = some (1, ⟨0, 75, 75, 0⟩) := by
  intro run snapshot d fs
  have evaluated : (d.update ⟨1, 0⟩ fs {} ["b"]).toOption.map
      (fun result => (result.1.space.policy, (result.2.find? [run]).map Entry.source)) =
        some (.lastWins, some (1, ⟨0, 75, 75, 0⟩)) := by decide +kernel
  have untouched : d.Untouched fs {} ["b"] [run] := by
    intro dims fields hdims hfields
    have dimensions : (Settings.withDocument {} d).fieldDimensions =
        .ok [FieldDimension.runtime.dimension] := rfl
    have harvested : Settings.harvest {} fs 1 ["b"] =
        .ok ((Harvest.ofItems none (scan 1 [])).append {}) := by
      refine Except.bind_eq_ok_iff.mpr ⟨none, rfl, ?_⟩
      exact Except.bind_eq_ok_iff.mpr ⟨[], rfl, rfl⟩
    have arrivals : d.arrivals fs {} ["b"] =
        .ok ((Harvest.ofItems none (scan 1 [])).append {}).fields :=
      Except.bind_eq_ok_iff.mpr ⟨["b"], rfl, Except.bind_eq_ok_iff.mpr ⟨_, harvested, rfl⟩⟩
    cases dimensions.symm.trans hdims
    cases arrivals.symm.trans hfields
    decide +kernel
  cases updated : d.update ⟨1, 0⟩ fs {} ["b"] with
  | error e =>
    rw [updated] at evaluated
    cases evaluated
  | ok result =>
    obtain ⟨d', new⟩ := result
    rw [updated] at evaluated
    obtain ⟨policy, answer⟩ := Prod.mk.inj (Option.some.inj evaluated)
    exact ⟨_, d', new, rfl, rfl, untouched, rfl, policy, by decide +kernel, answer⟩

end Document

end GribCatalog
