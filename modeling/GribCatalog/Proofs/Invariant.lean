import GribCatalog.Grib.Dimension
import GribCatalog.Proofs.Cells
import GribCatalog.Proofs.Outcome
import GribCatalog.Proofs.Placement
import GribCatalog.Proofs.Snapshot
import GribCatalog.Space.Build

/-! Spaces that can come about. Whether built at once, streamed, extended or restored,
a space obeys the same rules: each way to a space has a lemma that keeps them, and
what queries rely on is read off them. -/

namespace GribCatalog

variable {ρ : Type}

/-- Nothing happens to a gathering but that values are added. -/
def Gathering.GrowsTo (g g' : Gathering ρ) : Prop :=
  ∃ values : List AxisValue, g' = values.foldl add g

theorem Gathering.forall₂_growsTo_refl (gatherings : List (Gathering ρ)) :
    List.Forall₂ GrowsTo gatherings gatherings :=
  List.forall₂_same.mpr fun _ _ => ⟨[], rfl⟩

namespace Survey

/-- Surveys as they can come about: started anywhere, and then given records, batches of records
and axes, also axes that they refuse. -/
inductive Run : Survey ρ → Prop
  | start {dimensions : List (Dimension ρ)} {base : Nat} {s : Survey ρ} :
    start dimensions base = .ok s → Run s
  | accumulate {s : Survey ρ} (record : ρ) : Run s → Run (s.accumulate record)
  | batch {s : Survey ρ} (options : BuildOptions) (records : List ρ) :
    Run s → Run (s.accumulateBatch options records)
  | seed {s : Survey ρ} (axes : List Axis) : Run s → Run (s.seed axes).1

structure Sound (s : Survey ρ) : Prop where
  nonempty : s.gatherings ≠ []
  nodup : ∀ g ∈ s.gatherings, g.values.Nodup

namespace Sound

theorem of_start {dimensions : List (Dimension ρ)} {base : Nat} {s : Survey ρ}
    (h : start dimensions base = .ok s) : s.Sound := by
  unfold start at h
  split at h
  · cases h
  · next hne =>
    cases h
    refine ⟨?_, fun g hg => ?_⟩
    · simpa using hne
    · obtain ⟨d, -, rfl⟩ := List.mem_map.mp hg
      exact List.nodup_nil

theorem accumulate {s : Survey ρ} (h : s.Sound) (record : ρ) : (s.accumulate record).Sound := by
  refine ⟨by simpa [Survey.accumulate] using h.nonempty, fun g hg => ?_⟩
  obtain ⟨g, hmem, rfl⟩ := List.mem_map.mp hg
  exact Gathering.nodup_offer (h.nodup g hmem) record

theorem batch {s : Survey ρ} (h : s.Sound) (options : BuildOptions) (records : List ρ) :
    (s.accumulateBatch options records).Sound := by
  constructor
  · rw [gatherings_accumulateBatch]
    simpa using h.nonempty
  · intro g hg
    rw [gatherings_accumulateBatch] at hg
    obtain ⟨g, hmem, rfl⟩ := List.mem_map.mp hg
    exact Gathering.nodup_foldl_offer (h.nodup g hmem) records

end Sound

theorem forall₂_addAxes (gatherings : List (Gathering ρ)) (axes : List Axis) :
    List.Forall₂ Gathering.GrowsTo gatherings (addAxes gatherings axes).1 := by
  induction gatherings generalizing axes with
  | nil => cases axes <;> exact .nil
  | cons g gatherings ih =>
    cases axes with
    | nil => exact Gathering.forall₂_growsTo_refl _
    | cons a axes =>
      rw [addAxes, Gathering.addAll]
      by_cases hkind : a.kind = g.dimension.kind
      · simp only [if_pos hkind]
        exact .cons ⟨a.values, rfl⟩ (ih axes)
      · simp only [if_neg hkind]
        exact Gathering.forall₂_growsTo_refl _

/-- No gathering loses a value in a seed, whether it is refused or not. -/
theorem forall₂_seed (s : Survey ρ) (axes : List Axis) :
    List.Forall₂ Gathering.GrowsTo s.gatherings (s.seed axes).1.gatherings := by
  unfold Survey.seed
  split
  · exact Gathering.forall₂_growsTo_refl _
  · exact forall₂_addAxes s.gatherings axes

theorem dimensions_seed (s : Survey ρ) (axes : List Axis) :
    (s.seed axes).1.gatherings.map Gathering.dimension = s.gatherings.map Gathering.dimension := by
  rw [← List.forall₂_eq_eq_eq, List.forall₂_map_left_iff, List.forall₂_map_right_iff]
  refine ((forall₂_seed s axes).imp ?_).flip
  rintro g _ ⟨values, rfl⟩
  exact Gathering.foldl_add_dimension values g

theorem base_seed (s : Survey ρ) (axes : List Axis) : (s.seed axes).1.base = s.base := by
  unfold Survey.seed
  split <;> rfl

theorem Sound.seed {s : Survey ρ} (h : s.Sound) (axes : List Axis) : (s.seed axes).1.Sound := by
  constructor
  · intro hnil
    have hsame := dimensions_seed s axes
    rw [hnil] at hsame
    exact h.nonempty (List.map_eq_nil_iff.mp hsame.symm)
  · intro g hg
    obtain ⟨g', hg', values, rfl⟩ := List.exists_of_forall₂ (forall₂_seed s axes) hg
    exact Gathering.nodup_foldl_add (h.nodup g' hg') values

/-- Whatever is done with a survey, no gathering repeats a value. -/
theorem Run.sound {s : Survey ρ} (h : s.Run) : s.Sound := by
  induction h with
  | start h => exact .of_start h
  | accumulate record _ ih => exact ih.accumulate record
  | batch options records _ ih => exact ih.batch options records
  | seed axes _ ih => exact ih.seed axes

end Survey

namespace Placement

inductive Run [Located ρ] : Placement ρ → Prop
  | finish {s : Survey ρ} (options : BuildOptions) : s.Run → Run (s.finish options)
  | assign {p : Placement ρ} (record : ρ) : Run p → Run (p.assign record)

structure Sound (p : Placement ρ) : Prop where
  nonempty : p.axes ≠ []
  arity : p.dimensions.length = p.axes.length
  nodup : ∀ a ∈ p.axes, a.values.Nodup
  inRange : ∀ e ∈ p.entries, List.Forall₂ (· < ·) e.indices (p.axes.map Axis.size)

namespace Sound

theorem finish {s : Survey ρ} (h : s.Sound) (options : BuildOptions) :
    (s.finish options).Sound where
  nonempty := by simpa [Survey.finish] using h.nonempty
  arity := by simp [Survey.finish]
  nodup a ha := by
    obtain ⟨g, hg, rfl⟩ := List.mem_map.mp ha
    exact Dimension.nodup_sort (h.nodup g hg)
  inRange e he := absurd he List.not_mem_nil

theorem publish {p : Placement ρ} (h : p.Sound) : p.publish.1.Sound where
  nonempty := h.nonempty
  nodup := h.nodup
  inRange := h.inRange
  cells := rfl

variable [Located ρ]

theorem assign {p : Placement ρ} (h : p.Sound) (r : ρ) : (p.assign r).Sound where
  nonempty := h.nonempty
  arity := h.arity
  nodup := h.nodup
  inRange e he := by
    have he : e ∈ ([r].foldl Placement.assign p).entries := he
    rcases mem_foldl_assign he with he | ⟨s, -, -, hfound⟩
    · exact h.inRange e he
    · have hrange := Resolution.inRange_of_found hfound
      rwa [List.map_snd_zip h.arity.ge] at hrange

theorem foldl_assign {p : Placement ρ} (h : p.Sound) (records : List ρ) :
    (records.foldl Placement.assign p).Sound := by
  induction records generalizing p with
  | nil => exact h
  | cons r records ih => exact ih (h.assign r)

end Sound

theorem Run.sound [Located ρ] {p : Placement ρ} (h : p.Run) : p.Sound := by
  induction h with
  | finish options hs => exact .finish hs.sound options
  | assign record _ ih => exact ih.assign record

end Placement

namespace Space

/-- An entry that is carried over to new axes has an index on every one of them. -/
theorem inRange_mapM {is js : List Nat} {old new : List Axis}
    (arity : is.length = new.length) (axes : old.length = new.length)
    (h : (is.zip (old.zip new)).mapM (fun (i, a, b) => a.values[i]?.bind b.index?) = some js) :
    List.Forall₂ (· < ·) js (new.map Axis.size) := by
  induction new generalizing is js old with
  | nil =>
    obtain rfl := List.length_eq_zero_iff.mp arity
    cases h
    exact .nil
  | cons b new ih =>
    obtain ⟨i, is, rfl⟩ := List.exists_cons_of_length_eq_add_one arity
    obtain ⟨a, old, rfl⟩ := List.exists_cons_of_length_eq_add_one axes
    simp only [List.zip_cons_cons, List.mapM_cons, Option.bind_eq_bind, Option.bind_eq_some_iff,
      Option.pure_def, Option.some.injEq] at h
    obtain ⟨j, ⟨v, -, hj⟩, js, hjs, rfl⟩ := h
    exact .cons (Axis.lt_size_of_index? hj) (ih (Nat.succ.inj arity) (Nat.succ.inj axes) hjs)

theorem reindex_eq_ok_iff {old : List Axis} {p q : Placement ρ} {entries : List Entry} :
    reindex old p entries = .ok q ↔
      ∃ kept, List.Forall₂ (fun e e' => reindex? old p.axes e = some e') entries kept ∧
        { p with entries := kept } = q := by
  constructor
  · intro h
    obtain ⟨kept, hkept, hq⟩ := Except.bind_eq_ok_iff.mp h
    refine ⟨kept, (Except.forall₂_of_mapM_eq_ok hkept).imp fun e e' he => ?_, Except.ok.inj hq⟩
    cases hmoved : reindex? old p.axes e with
    | none =>
      rw [hmoved] at he
      cases he
    | some e'' =>
      rw [hmoved] at he
      rw [Except.ok.inj he]
  · rintro ⟨kept, moved, rfl⟩
    refine Except.bind_eq_ok_iff.mpr ⟨kept, ?_, rfl⟩
    exact Except.mapM_eq_ok_of_forall₂ (moved.imp fun e e' he => by rw [he])

theorem sound_reindex {old : List Axis} {p : Placement ρ} {entries kept : List Entry}
    (h : p.Sound) (axes : old.length = p.axes.length)
    (arity : ∀ e ∈ entries, e.indices.length = p.axes.length)
    (moved : List.Forall₂ (fun e e' => reindex? old p.axes e = some e') entries kept) :
    Placement.Sound { p with entries := kept } := by
  refine ⟨h.nonempty, h.arity, h.nodup, fun e' he' => ?_⟩
  obtain ⟨e, he, hmoved⟩ := List.exists_of_forall₂ moved he'
  obtain ⟨indices, hindices, hsame⟩ := Option.bind_eq_some_iff.mp hmoved
  obtain rfl := Option.some.inj hsame
  exact inRange_mapM (arity e he) axes hindices

theorem dimensions_of_start {dimensions : List (Dimension ρ)} {base : Nat} {s : Survey ρ}
    (h : Survey.start dimensions base = .ok s) :
    s.gatherings.map Gathering.dimension = dimensions := by
  unfold Survey.start at h
  split at h
  · cases h
  · cases h
    simp [Function.comp_def]

theorem base_of_start {dimensions : List (Dimension ρ)} {base : Nat} {s : Survey ρ}
    (h : Survey.start dimensions base = .ok s) : s.base = base := by
  unfold Survey.start at h
  split at h
  · cases h
  · cases h
    rfl

theorem length_of_checkDimensions {axes : List Axis} {dimensions : List (Dimension ρ)}
    (h : checkDimensions axes dimensions = .ok ()) : axes.length = dimensions.length :=
  (checkDimensions_eq_ok_iff.mp h).length_eq

section Sound

variable [Located ρ] {dimensions : List (Dimension ρ)} {records : List ρ} {options : BuildOptions}
  {report : Report}

theorem sound_of_build {s : Space} (h : build dimensions records options = .ok (s, report)) :
    s.Sound := by
  obtain ⟨-, -, h⟩ := Except.bind_eq_ok_iff.mp h
  obtain ⟨survey, hsurvey, h⟩ := Except.bind_eq_ok_iff.mp h
  have hsound : survey.Sound := .of_start hsurvey
  obtain rfl := congrArg Prod.fst (Except.ok.inj h)
  exact ((Placement.Sound.finish (hsound.batch options records) options).foldl_assign
    records).publish

/-- An extension carries the entries over to new axes and assigns the records there. -/
theorem extend_eq_ok {s t : Space} (h : s.extend dimensions records options = .ok (t, report)) :
    ∃ (p : Placement ρ) (kept : List Entry), p.Sound ∧ p.dimensions = dimensions ∧
      p.policy = options.duplicatePolicy ∧ p.position = s.nextPosition ∧
      s.axes.length = p.axes.length ∧
      List.Forall₂ (fun e e' => reindex? s.axes p.axes e = some e') s.entries kept ∧
      t = (records.foldl Placement.assign { p with entries := kept }).publish.1 := by
  obtain ⟨-, -, h⟩ := Except.bind_eq_ok_iff.mp h
  obtain ⟨_, hcheck, h⟩ := Except.bind_eq_ok_iff.mp h
  obtain ⟨survey, hsurvey, h⟩ := Except.bind_eq_ok_iff.mp h
  obtain ⟨-, -, h⟩ := Except.bind_eq_ok_iff.mp h
  obtain ⟨_, hreindex, h⟩ := Except.bind_eq_ok_iff.mp h
  obtain ⟨kept, moved, rfl⟩ := reindex_eq_ok_iff.mp hreindex
  have hsound : survey.Sound := .of_start hsurvey
  have hp := Placement.Sound.finish ((hsound.seed s.axes).batch options records) options
  have hdimensions :
      (((survey.seed s.axes).1.accumulateBatch options records).finish options).dimensions =
        dimensions := by
    rw [← dimensions_of_start hsurvey, ← Survey.dimensions_seed survey s.axes]
    simp [Survey.finish, Survey.gatherings_accumulateBatch, Function.comp_def]
  have hbase : ((survey.seed s.axes).1.accumulateBatch options records).base = s.nextPosition := by
    rw [Survey.base_accumulateBatch, Survey.base_seed, base_of_start hsurvey]
  refine ⟨_, kept, hp, hdimensions, rfl, hbase, ?_, moved,
    (congrArg Prod.fst (Except.ok.inj h)).symm⟩
  rw [length_of_checkDimensions hcheck, ← hp.arity, hdimensions]

theorem Sound.extend {s t : Space} (hs : s.Sound)
    (h : s.extend dimensions records options = .ok (t, report)) : t.Sound := by
  obtain ⟨p, kept, hp, -, -, -, hlength, moved, rfl⟩ := extend_eq_ok h
  have hentries : ∀ e ∈ s.entries, e.indices.length = s.axes.length := fun e he =>
    (hs.inRange e he).length_eq.trans (List.length_map _)
  have hkept := sound_reindex hp hlength (fun e he => (hentries e he).trans hlength) moved
  exact (hkept.foldl_assign records).publish

theorem sound_of_restore {snapshot : Snapshot} {s : Space} (h : restore snapshot = .ok s) :
    s.Sound := by
  obtain ⟨hfault, rfl⟩ := restore_eq_ok_iff.mp h
  obtain ⟨-, nonempty, nodup, inRange⟩ := Snapshot.fault?_eq_none_iff.mp hfault
  exact ⟨nonempty, nodup, inRange, rfl⟩

end Sound

/-- Spaces as they can come about: built at once, published after any two passes, extended by
records of any type, and restored from any snapshot that is accepted. -/
inductive Reachable : Space → Prop
  | build {ρ : Type} [Located ρ] {dimensions : List (Dimension ρ)} {records : List ρ}
    {options : BuildOptions} {s : Space} {report : Report} :
    Space.build dimensions records options = .ok (s, report) → Reachable s
  | publish {ρ : Type} [Located ρ] {p : Placement ρ} : p.Run → Reachable p.publish.1
  | extend {ρ : Type} [Located ρ] {dimensions : List (Dimension ρ)} {records : List ρ}
    {options : BuildOptions} {s t : Space} {report : Report} :
    Reachable s → s.extend dimensions records options = .ok (t, report) → Reachable t
  | restore {snapshot : Snapshot} {s : Space} : Space.restore snapshot = .ok s → Reachable s

theorem Reachable.sound {s : Space} (h : s.Reachable) : s.Sound := by
  induction h with
  | build h => exact sound_of_build h
  | publish h => exact h.sound.publish
  | extend _ h ih => exact ih.extend h
  | restore h => exact sound_of_restore h

def valuesAt? (s : Space) (indices : List Nat) : Option (List AxisValue) :=
  if indices.length = s.rank then (indices.zip s.axes).mapM fun (i, a) => a.values[i]? else none

structure Consistent (s : Space) : Prop where
  rank : 1 ≤ s.rank
  nodup : ∀ a ∈ s.axes, a.values.Nodup
  index : ∀ a ∈ s.axes, ∀ v i, a.index? v = some i ↔ a.values[i]? = some v
  inRange : ∀ e ∈ s.entries, List.Forall₂ (· < ·) e.indices s.shape
  cells : (s.cells.map Cell.indices).Nodup
  occupied : ∀ t, t ∈ s.cells.map Cell.indices ↔ ∃ e ∈ s.entries, e.indices = t
  winner : ∀ c ∈ s.cells, c.winner ∈ s.entries ∧ c.winner.indices = c.indices
  hit : ∀ e ∈ s.entries, ∃ values, s.valuesAt? e.indices = some values ∧
    ∃ w ∈ s.entries, s.find? values = some w ∧ w.indices = e.indices
  miss : ∀ (values : List AxisValue) (d : Nat) (v : AxisValue) (a : Axis),
    values[d]? = some v → s.axes[d]? = some a → v ∉ a.values → s.find? values = none

theorem exists_values {axes : List Axis} (nodup : ∀ a ∈ axes, a.values.Nodup) {indices : List Nat}
    (inRange : List.Forall₂ (· < ·) indices (axes.map Axis.size)) :
    ∃ values, (indices.zip axes).mapM (fun (i, a) => a.values[i]?) = some values ∧
      values.length = axes.length ∧
      (values.zip axes).mapM (fun (v, a) => a.index? v) = some indices := by
  induction axes generalizing indices with
  | nil =>
    cases inRange
    exact ⟨[], rfl, rfl, rfl⟩
  | cons a axes ih =>
    rw [List.forall_mem_cons] at nodup
    obtain ⟨i, rest, hi, hrest, rfl⟩ := List.forall₂_cons_right_iff.mp inRange
    obtain ⟨values, hvalues, hlength, hindices⟩ := ih nodup.2 hrest
    have hv : a.values[i]? = some (a.values.get ⟨i, hi⟩) := List.getElem?_eq_getElem hi
    refine ⟨a.values.get ⟨i, hi⟩ :: values, ?_, congrArg (· + 1) hlength, ?_⟩
    · simp only [List.zip_cons_cons, List.mapM_cons, hv, hvalues]
      rfl
    · simp only [List.zip_cons_cons, List.mapM_cons, (Axis.index?_eq_some_iff nodup.1).mpr hv,
        hindices]
      rfl

theorem Sound.consistent {s : Space} (h : s.Sound) : s.Consistent where
  rank := List.length_pos_iff.mpr h.nonempty
  nodup := h.nodup
  index a ha v i := Axis.index?_eq_some_iff (h.nodup a ha)
  inRange := h.inRange
  cells := by
    rw [h.cells]
    exact (Cell.cover_ofEntries s.policy s.entries).nodup
  occupied t := by
    rw [h.cells]
    exact (Cell.cover_ofEntries s.policy s.entries).mem_iff t
  winner c hc := by
    rw [h.cells] at hc
    exact (Cell.cover_ofEntries s.policy s.entries).winner_mem hc
  hit e he := by
    have cover := h.cells ▸ Cell.cover_ofEntries s.policy s.entries
    obtain ⟨values, hvalues, hlength, hindices⟩ := exists_values h.nodup (h.inRange e he)
    obtain ⟨c, hc, hce⟩ := List.mem_map.mp ((cover.mem_iff e.indices).mpr ⟨e, he, rfl⟩)
    have harity : e.indices.length = s.rank :=
      (h.inRange e he).length_eq.trans (List.length_map _)
    have hfind : s.find? values = some c.winner := by
      have hindicesOf : s.indicesOf? values = some e.indices := (if_pos hlength).trans hindices
      rw [find?, hindicesOf, Option.bind_some, ← hce]
      exact entryAt?_of_mem cover.nodup hc
    obtain ⟨hmem, hwinner⟩ := cover.winner_mem hc
    refine ⟨values, ?_, c.winner, hmem, hfind, hwinner.trans hce⟩
    exact (if_pos harity).trans hvalues
  miss values d v a hv ha hmiss := by
    have hmem : (v, a) ∈ values.zip s.axes :=
      List.mem_of_getElem? (List.getElem?_zip_eq_some.mpr ⟨hv, ha⟩)
    have hindices : s.indicesOf? values = none := by
      unfold indicesOf?
      split
      · exact Option.mapM_eq_none_iff.mpr ⟨_, hmem, Axis.lastIndex?_eq_none_iff.mpr hmiss⟩
      · rfl
    rw [find?, hindices, Option.bind_none]

/-- However a space comes about, queries can rely on it. -/
theorem consistent_of_reachable {s : Space} (h : s.Reachable) : s.Consistent :=
  h.sound.consistent

/-- A restored space, extended by a field of the same cell: the field answers for the cell. -/
theorem consistent_of_reachable_extended :
    let run (time : Int) : AxisValue := .runtime ⟨time, 0⟩
    let snapshot : Snapshot :=
      ⟨1, .lastWins, [⟨"runtime", .runtime, [run 0]⟩], [⟨4, ⟨0, 28, 56, 0⟩, [0]⟩], 6⟩
    let records : List Field :=
      [⟨1, 0, 28, 0, 98, ⟨0, 0⟩, 0, ⟨0, 0, 0⟩, .instant 0, none, none⟩]
    ∃ s t report, restore snapshot = .ok s ∧
      s.extend [FieldDimension.runtime.dimension] records {} = .ok (t, report) ∧
      t.find? [run 0] = some ⟨6, ⟨1, 0, 28, 0⟩, [0]⟩ ∧ t.find? [run 1] = none ∧
      t.Reachable ∧ t.Consistent := by
  intro run snapshot records
  let s := assemble snapshot.axes snapshot.entries .lastWins 6
  have restored : restore snapshot = .ok s := rfl
  have found : (s.extend [FieldDimension.runtime.dimension] records {}).toOption.map
      (fun result => (result.1.find? [run 0], result.1.find? [run 1])) =
        some (some ⟨6, ⟨1, 0, 28, 0⟩, [0]⟩, none) := by decide +kernel
  cases extended : s.extend [FieldDimension.runtime.dimension] records {} with
  | error e =>
    rw [extended] at found
    cases found
  | ok result =>
    obtain ⟨t, report⟩ := result
    rw [extended] at found
    obtain ⟨hit, miss⟩ := Prod.mk.inj (Option.some.inj found)
    have reachable : t.Reachable := .extend (.restore restored) extended
    exact ⟨s, t, report, restored, extended, hit, miss, reachable,
      consistent_of_reachable reachable⟩

end Space

end GribCatalog
