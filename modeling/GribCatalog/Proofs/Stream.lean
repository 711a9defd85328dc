import GribCatalog.Proofs.Build

/-! Taking a stream piece by piece. However a stream is cut, whether a piece is taken
record by record or as a batch, and in whatever order the dimensions are finished, the
two passes come to one build over the whole stream. -/

namespace GribCatalog

variable {ρ : Type}

namespace Collector

def finishAt (cs : List (Collector ρ)) (turn : Nat) : Except IndexFault (List (Collector ρ)) :=
  match cs[turn]? with
  | some c => c.finish.map fun (_, c) => cs.set turn c
  | none => .ok cs

/-- Collectors of which some have had their turns. -/
def after (gatherings : List (Gathering ρ)) (done : List Nat) : List (Collector ρ) :=
  gatherings.mapIdx fun i g =>
    if i ∈ done then .finished g.dimension g.axis else .gathering g

theorem getElem?_after (gatherings : List (Gathering ρ)) (done : List Nat) (i : Nat) :
    (after gatherings done)[i]? = gatherings[i]?.map fun g =>
      if i ∈ done then .finished g.dimension g.axis else .gathering g := by
  rw [after, List.getElem?_mapIdx]

theorem after_nil (gatherings : List (Gathering ρ)) :
    after gatherings [] = gatherings.map .gathering := by
  refine List.ext_getElem? fun i => ?_
  rw [getElem?_after, List.getElem?_map]
  simp

theorem finishAt_after {gatherings : List (Gathering ρ)} {done : List Nat} {turn : Nat}
    (lt : turn < gatherings.length) (new : turn ∉ done) :
    finishAt (after gatherings done) turn = .ok (after gatherings (turn :: done)) := by
  have hturn : (after gatherings done)[turn]? = some (.gathering gatherings[turn]) := by
    rw [getElem?_after, List.getElem?_eq_getElem lt, Option.map_some, if_neg new]
  simp only [finishAt, hturn, finish, Except.map]
  refine congrArg _ (List.ext_getElem? fun i => ?_)
  rw [List.getElem?_set, getElem?_after, getElem?_after]
  by_cases hi : turn = i
  · subst hi
    simp [after, lt]
  · rw [if_neg hi]
    simp [Ne.symm hi]

theorem foldlM_finishAt {gatherings : List (Gathering ρ)} {done turns : List Nat}
    (lt : ∀ turn ∈ turns, turn < gatherings.length) (nodup : turns.Nodup)
    (new : ∀ turn ∈ turns, turn ∉ done) :
    turns.foldlM finishAt (after gatherings done) =
      .ok (after gatherings (turns.reverse ++ done)) := by
  induction turns generalizing done with
  | nil => rfl
  | cons turn turns ih =>
    rw [List.forall_mem_cons] at lt new
    obtain ⟨hturn, hnodup⟩ := List.nodup_cons.mp nodup
    rw [List.foldlM_cons, finishAt_after lt.1 new.1, List.reverse_cons, List.append_assoc]
    refine ih lt.2 hnodup fun next hnext hdone => ?_
    rcases List.mem_cons.mp hdone with rfl | hdone
    · exact hturn hnext
    · exact new.2 next hnext hdone

/-- Once every dimension has had its turn all collectors are finished. -/
theorem foldlM_finishAt_all {gatherings : List (Gathering ρ)} {turns : List Nat}
    (all : turns.Perm (List.range gatherings.length)) :
    turns.foldlM finishAt (gatherings.map .gathering) =
      .ok (gatherings.map fun g => .finished g.dimension g.axis) := by
  have mem (i : Nat) : i ∈ turns ↔ i < gatherings.length := by
    rw [all.mem_iff, List.mem_range]
  rw [← after_nil, foldlM_finishAt (fun i hi => (mem i).mp hi)
    (all.nodup_iff.mpr List.nodup_range) (fun _ _ => List.not_mem_nil), List.append_nil]
  refine congrArg _ (List.ext_getElem? fun i => ?_)
  rw [getElem?_after, List.getElem?_map]
  cases hg : gatherings[i]? with
  | none => rfl
  | some g =>
    have hi : i < gatherings.length := (List.getElem?_eq_some_iff.mp hg).1
    simp [mem, hi]

end Collector

namespace Survey

/-- Takes a piece of a stream: as a batch under some options, or record by record. -/
def feed (s : Survey ρ) (piece : Option BuildOptions × List ρ) : Survey ρ :=
  match piece with
  | (some options, records) => s.accumulateBatch options records
  | (none, records) => records.foldl accumulate s

/-- Finishes the dimensions in the order of their turns, which is any order where they are finished
side by side. -/
def finishTurns (s : Survey ρ) (turns : List Nat) : Except IndexFault (List (Collector ρ)) :=
  turns.foldlM Collector.finishAt (s.gatherings.map .gathering)

structure Shuffled (s t : Survey ρ) : Prop where
  gatherings : List.Forall₂ (fun g h => h.dimension = g.dimension ∧ h.values.Perm g.values)
    s.gatherings t.gatherings
  skipped : t.skipped = s.skipped
  seen : t.seen = s.seen
  base : t.base = s.base

def opening (dimensions : List (Dimension ρ)) : Survey ρ where
  gatherings := dimensions.map fun d => { dimension := d }

theorem start_eq {dimensions : List (Dimension ρ)} (nonempty : dimensions ≠ []) :
    start dimensions 0 = .ok (opening dimensions) := by
  have hempty : dimensions.isEmpty = false := by simpa using nonempty
  rw [start, hempty, if_neg Bool.false_ne_true]
  rfl

theorem length_opening (dimensions : List (Dimension ρ)) (records : List ρ) :
    (records.foldl accumulate (opening dimensions)).gatherings.length = dimensions.length := by
  rw [gatherings_foldl_accumulate, List.length_map, opening, List.length_map]

/-- A survey gathers on the dimensions that it was started with, and keeps each value once. -/
theorem of_mem_opening {dimensions : List (Dimension ρ)} {records : List ρ} {g : Gathering ρ}
    (hg : g ∈ (records.foldl accumulate (opening dimensions)).gatherings) :
    g.dimension ∈ dimensions ∧ g.values.Nodup := by
  rw [gatherings_foldl_accumulate] at hg
  obtain ⟨g, hmem, rfl⟩ := List.mem_map.mp hg
  obtain ⟨d, hd, rfl⟩ := List.mem_map.mp hmem
  rw [Gathering.foldl_offer_dimension]
  exact ⟨hd, Gathering.nodup_foldl_offer List.nodup_nil records⟩

theorem feed_eq {s : Survey ρ} {piece : Option BuildOptions × List ρ}
    (fits : s.base + s.seen + piece.2.length ≤ wordLimit) :
    s.feed piece = piece.2.foldl accumulate s := by
  obtain ⟨_ | options, records⟩ := piece
  · rfl
  · exact accumulateBatch_eq options fits

/-- Pieces that are taken one after the other come to their records taken one by one. -/
theorem foldl_feed {pieces : List (Option BuildOptions × List ρ)} {s : Survey ρ}
    (fits : s.base + s.seen + (pieces.map Prod.snd).flatten.length ≤ wordLimit) :
    pieces.foldl feed s = (pieces.map Prod.snd).flatten.foldl accumulate s := by
  induction pieces generalizing s with
  | nil => rfl
  | cons piece pieces ih =>
    rw [List.map_cons, List.flatten_cons, List.length_append] at fits
    rw [List.map_cons, List.flatten_cons, List.foldl_append, List.foldl_cons,
      feed_eq (by omega)]
    refine ih ?_
    rw [foldl_accumulate (by omega)]
    simp only
    omega

/-- In whatever order the dimensions are finished, all of them have the axes that are frozen. -/
theorem exists_finishTurns {s : Survey ρ} {turns : List Nat}
    (all : turns.Perm (List.range s.gatherings.length)) (options : BuildOptions) :
    ∃ collectors, s.finishTurns turns = .ok collectors ∧
      collectors.map Collector.axis? = (s.finish options).axes.map some := by
  refine ⟨_, Collector.foldlM_finishAt_all all, ?_⟩
  rw [Survey.finish, List.map_map, List.map_map]
  rfl

/-- Ordered dimensions come to the same axes in whatever order they keep their values. -/
theorem map_axis_shuffled {gs hs : List (Gathering ρ)}
    (shuffled : List.Forall₂ (fun g h => h.dimension = g.dimension ∧ h.values.Perm g.values) gs hs)
    (ordered : ∀ g ∈ gs, g.dimension.Ordered) (nodup : ∀ g ∈ gs, g.values.Nodup) :
    hs.map Gathering.dimension = gs.map Gathering.dimension ∧
      hs.map Gathering.axis = gs.map Gathering.axis := by
  induction shuffled with
  | nil => exact ⟨rfl, rfl⟩
  | @cons g h gs hs hgh _ ih =>
    rw [List.forall_mem_cons] at ordered nodup
    obtain ⟨hdimension, hvalues⟩ := hgh
    obtain ⟨hdimensions, haxes⟩ := ih ordered.2 nodup.2
    have hnodup : h.values.Nodup := hvalues.nodup_iff.mpr nodup.1
    have hsort : g.dimension.sort h.values = g.dimension.sort g.values :=
      ordered.1.sort_congr hnodup nodup.1 fun _ => hvalues.mem_iff
    have haxis : h.axis = g.axis := by
      rw [Gathering.axis, Gathering.axis, hdimension, hsort]
    exact ⟨by rw [List.map_cons, List.map_cons, hdimension, hdimensions],
      by rw [List.map_cons, List.map_cons, haxis, haxes]⟩

theorem finish_congr {options options' : BuildOptions}
    (policy : options.duplicatePolicy = options'.duplicatePolicy) (s : Survey ρ) :
    s.finish options = s.finish options' := by
  rw [Survey.finish, Survey.finish, policy]

theorem Shuffled.finish_eq {s t : Survey ρ} (h : s.Shuffled t)
    (ordered : ∀ g ∈ s.gatherings, g.dimension.Ordered)
    (nodup : ∀ g ∈ s.gatherings, g.values.Nodup) (options : BuildOptions) :
    t.finish options = s.finish options := by
  obtain ⟨hdimensions, haxes⟩ := map_axis_shuffled h.gatherings ordered nodup
  rw [Survey.finish, Survey.finish, hdimensions, haxes, h.skipped, h.seen, h.base]

end Survey

namespace Space

variable [Located ρ] {dimensions : List (Dimension ρ)} {options finishing : BuildOptions}

/-- A build takes the records one by one, whatever its options. -/
theorem build_eq_publish (nonempty : dimensions ≠ []) (valid : options.validate = .ok ())
    {records : List ρ} (fits : records.length ≤ wordLimit) :
    build dimensions records options =
      .ok (records.foldl Placement.assign
        ((records.foldl Survey.accumulate (.opening dimensions)).finish options)).publish := by
  simp only [build, valid, Survey.start_eq nonempty, bind, Except.bind]
  rw [Survey.accumulateBatch_eq options (by simpa [Survey.opening] using fits)]

/-- However a stream is cut into pieces and these are taken, and in whatever order values are kept
and dimensions are finished, the second pass publishes the space and the report of a build of the
whole stream. Without dimensions neither begins. -/
theorem publish_pieces (ordered : ∀ d ∈ dimensions, d.Ordered) (valid : options.validate = .ok ())
    (policy : finishing.duplicatePolicy = options.duplicatePolicy)
    {pieces : List (Option BuildOptions × List ρ)} {records : List ρ}
    (cut : (pieces.map Prod.snd).flatten = records) (fits : records.length ≤ wordLimit)
    {turns : List Nat} (all : turns.Perm (List.range dimensions.length)) :
    (dimensions = [] → Survey.start dimensions 0 = .error .noDimensions ∧
      build dimensions records options = .error .noDimensions) ∧
    (dimensions ≠ [] → ∃ start, Survey.start dimensions 0 = .ok start ∧
      ∀ s, (pieces.foldl Survey.feed start).Shuffled s →
        (∃ collectors, s.finishTurns turns = .ok collectors ∧
          collectors.map Collector.axis? = (s.finish finishing).axes.map some) ∧
        build dimensions records options =
          .ok (records.foldl Placement.assign (s.finish finishing)).publish) := by
  constructor
  · rintro rfl
    exact ⟨rfl, by rw [build, valid]; rfl⟩
  intro nonempty
  refine ⟨_, Survey.start_eq nonempty, fun s shuffled => ?_⟩
  have hfits : 0 + 0 + (pieces.map Prod.snd).flatten.length ≤ wordLimit := by
    rw [cut]
    omega
  rw [Survey.foldl_feed hfits, cut] at shuffled
  constructor
  · have hlength := shuffled.gatherings.length_eq
    rw [Survey.length_opening] at hlength
    exact Survey.exists_finishTurns (hlength ▸ all) finishing
  · have hfinish := shuffled.finish_eq
      (fun g hg => ordered _ (Survey.of_mem_opening hg).1)
      (fun g hg => (Survey.of_mem_opening hg).2) finishing
    rw [hfinish, build_eq_publish nonempty valid fits, Survey.finish_congr policy]

/-- Fields with a level and without one: taken one by one, as a batch on both dimensions side by
side and one by one again, with values kept backwards and the second dimension finished first. -/
theorem publish_pieces_surfaces :
    let field (time : Int) (level : Option Surface) : Field :=
      ⟨0, 0, 28, 0, 98, ⟨time, 0⟩, 0, ⟨0, 0, 0⟩, .instant 0, level, none⟩
    let surface : Surface := ⟨100, .zero⟩
    let pieces := [(none, [field 7200 (some surface)]),
      (some { parallel := true, parallelThreshold := 2 },
        [field 3600 none, field 0 (some surface), field 7200 none]),
      (none, [field 0 none])]
    let records := (pieces.map Prod.snd).flatten
    let dimensions := [(FieldDimension.vertical none true).dimension,
      FieldDimension.runtime.dimension]
    let options : BuildOptions := { duplicatePolicy := .firstWins }
    let finishing : BuildOptions :=
      { duplicatePolicy := .firstWins, parallel := true, parallelThreshold := 0 }
    ((∀ d ∈ dimensions, d.Ordered) ∧ options.validate = .ok () ∧
      finishing.duplicatePolicy = options.duplicatePolicy ∧ records.length ≤ wordLimit ∧
      [1, 0].Perm (List.range dimensions.length)) ∧
    ∃ start, Survey.start dimensions 0 = .ok start ∧
      let fed := pieces.foldl Survey.feed start
      let s := { fed with
        gatherings := fed.gatherings.map fun g => { g with values := g.values.reverse } }
      fed.Shuffled s ∧
        (∃ collectors, s.finishTurns [1, 0] = .ok collectors ∧
          collectors.map Collector.axis? = (s.finish finishing).axes.map some) ∧
        build dimensions records options =
          .ok (records.foldl Placement.assign (s.finish finishing)).publish := by
  intro field surface pieces records dimensions options finishing
  have ordered : ∀ d ∈ dimensions, d.Ordered := by
    simp [dimensions, FieldDimension.ordered]
  have cut : (pieces.map Prod.snd).flatten = records := rfl
  have fits : records.length ≤ wordLimit := by decide
  have all : [1, 0].Perm (List.range dimensions.length) := by decide
  have policy : finishing.duplicatePolicy = options.duplicatePolicy := rfl
  obtain ⟨start, hstart, published⟩ :=
    (publish_pieces ordered rfl policy cut fits all).2 (List.cons_ne_nil _ _)
  refine ⟨⟨ordered, rfl, policy, fits, all⟩, start, hstart, ?_⟩
  have shuffled : (pieces.foldl Survey.feed start).Shuffled
      { pieces.foldl Survey.feed start with
        gatherings := (pieces.foldl Survey.feed start).gatherings.map fun g =>
          { g with values := g.values.reverse } } := by
    refine ⟨?_, rfl, rfl, rfl⟩
    rw [List.forall₂_map_right_iff, List.forall₂_same]
    exact fun g _ => ⟨rfl, List.reverse_perm g.values⟩
  exact ⟨shuffled, published _ shuffled⟩

end Space

end GribCatalog
