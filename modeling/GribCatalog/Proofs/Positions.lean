import GribCatalog.Proofs.Checked

/-! Positions in the stream. The records of an extension are numbered from the next position of the
space. After the last position that a word holds a checked run ends, and the numbers of any other
run start over. So they are new as long as that is not reached, and a stored space may have reached
it. -/

namespace GribCatalog

/-! ### Numbers -/

theorem positionAfter_one {position : Nat} (h : position < wordLimit) :
    positionAfter position 1 = if position + 1 < wordLimit then position + 1 else 0 := by
  rw [positionAfter]
  split
  · next hlt => exact Nat.mod_eq_of_lt hlt
  · next hlast =>
    rw [show position + 1 = wordLimit by omega]
    exact Nat.mod_self wordLimit

/-- A position is not among the numbers when they end before it. If it is before the first of them
they may start over once. -/
theorem not_mem_positionsFrom_iff {position number count : Nat} (hposition : position < wordLimit)
    (hnumber : number < wordLimit) :
    position ∉ positionsFrom number count ↔
      if position < number then number + count ≤ wordLimit + position
      else number + count ≤ position := by
  induction count generalizing number with
  | zero =>
    simp only [positionsFrom, List.not_mem_nil, not_false_iff, true_iff]
    split <;> omega
  | succ count ih =>
    -- the second number is the next one or, behind the last position, zero
    rw [positionsFrom, List.mem_cons, not_or, ih (positionAfter_lt number 1),
      positionAfter_one hnumber]
    split_ifs <;> omega

theorem positionsFrom_eq_range' {number count : Nat} (h : number + count ≤ wordLimit) :
    positionsFrom number count = List.range' number count := by
  induction count generalizing number with
  | zero => rfl
  | succ count ih =>
    rw [positionsFrom, List.range'_succ]
    refine congrArg (number :: ·) ?_
    cases count with
    | zero => rfl
    | succ count => rw [positionAfter_of_lt (by omega), ih (by omega)]

namespace Space

variable {s t : Space}

theorem lt_nextPosition_iff (hnext : s.nextPosition < wordLimit) :
    (∀ e ∈ s.entries, e.position < s.nextPosition) ↔
      ∀ e ∈ s.entries, e.position + 1 < wordLimit := by
  constructor
  · intro h e he
    exact Nat.lt_of_le_of_lt (h e he) hnext
  · intro h e he
    have hle := (foldl_max_lt_iff.mp (Nat.lt_succ_self s.nextPosition)).2
      (positionAfter e.position 1) (List.mem_map_of_mem he)
    rw [positionAfter_of_lt (h e he)] at hle
    omega

theorem position_of_reindex? {old new : List Axis} {e e' : Entry}
    (h : reindex? old new e = some e') : e'.position = e.position := by
  obtain ⟨indices, -, hsame⟩ := Option.bind_eq_some_iff.mp h
  cases hsame
  rfl

section Extend

variable {ρ : Type} [Located ρ] {dimensions : List (Dimension ρ)} {records : List ρ}
  {options : BuildOptions} {report : Report}

/-- An extension leaves the old entries at their positions and numbers its records from the next
one on. -/
theorem exists_of_extend (h : s.extend dimensions records options = .ok (t, report)) :
    (∃ kept, kept.map Entry.position = s.entries.map Entry.position ∧
      t.entries = kept ++
        (records.zip (positionsFrom s.nextPosition records.length)).filterMap fun q =>
          Placement.entryFor? (dimensions.zip t.axes) q.2 q.1) ∧
    (s.nextPosition < wordLimit → t.consumed = positionAfter s.nextPosition records.length) := by
  obtain ⟨p, kept, -, rfl, -, hposition, -, moved, rfl⟩ := extend_eq_ok h
  rw [← hposition]
  refine ⟨⟨kept, ?_, ?_⟩, fun hword => ?_⟩
  · rw [← List.forall₂_eq_eq_eq, List.forall₂_map_left_iff, List.forall₂_map_right_iff]
    exact moved.flip.imp fun e' e he => position_of_reindex? he
  · have haxes : (records.foldl Placement.assign { p with entries := kept }).axes = p.axes :=
      Placement.foldl_assign_axes records _
    simp only [Placement.publish, assemble, haxes]
    exact Placement.foldl_assign_numbered records { p with entries := kept }
  · exact Placement.foldl_assign_stops (p := { p with entries := kept }) hword records

end Extend

/-- What is sure of a space that was restored from positions that are words. Its next position is
one, too, and is after all entries exactly when none of them stands at the last position there is;
else a checked run does not find it.

A checked extension by dimensions that are accepted comes to nothing exactly when there is no room
for its records, and if it comes to a space then their numbers count up from the next position and
are new. An unchecked one numbers its records from the next position on, the old entries keep their
positions, and the stream goes on where the numbers end. No number is an old entry's exactly when
the numbers end before the entries that are behind them and, if they start over, before all
others. -/
theorem numbers_of_restore {x : Snapshot} {s : Space} (h : restore x = .ok s)
    (positions : ∀ e ∈ x.entries, e.position < wordLimit) (next : x.nextPosition < wordLimit) :
    s.nextPosition < wordLimit ∧
    ((∀ e ∈ s.entries, e.position < s.nextPosition) ↔
      ∀ e ∈ s.entries, e.position + 1 < wordLimit) ∧
    (s.nextPosition? =
      if ∀ e ∈ s.entries, e.position + 1 < wordLimit then some s.nextPosition else none) ∧
    ∀ {ρ : Type} [Located ρ] {dimensions : List (Dimension ρ)} {records : List ρ}
      {options : BuildOptions},
      let numbers := positionsFrom s.nextPosition records.length
      ((s.extend? dimensions records options).run = none ↔
        options.validate = .ok () ∧ checkDimensions s.axes dimensions = .ok () ∧
          ¬ s.HasRoom records.length) ∧
      ∀ {t : Space} {report : Report},
        ((s.extend? dimensions records options).run = some (.ok (t, report)) →
          s.extend dimensions records options = .ok (t, report) ∧
          numbers = List.range' s.nextPosition records.length ∧
          t.consumed = s.nextPosition + records.length ∧ ∀ e ∈ s.entries, e.position ∉ numbers) ∧
        (s.extend dimensions records options = .ok (t, report) →
          (∃ kept, kept.map Entry.position = s.entries.map Entry.position ∧
            t.entries = kept ++ (records.zip numbers).filterMap fun q =>
              Placement.entryFor? (dimensions.zip t.axes) q.2 q.1) ∧
          t.consumed = positionAfter s.nextPosition records.length ∧
          ((∀ e ∈ s.entries, e.position ∉ numbers) ↔ ∀ e ∈ s.entries,
            if e.position < s.nextPosition then
              s.nextPosition + records.length ≤ wordLimit + e.position
            else s.nextPosition + records.length ≤ e.position)) := by
  obtain ⟨-, hentries, hconsumed⟩ := snapshot_of_restore h
  have hs : s.consumed < wordLimit := hconsumed ▸ next
  have hnext : s.nextPosition < wordLimit := nextPosition_lt_iff.mpr hs
  have haxes := (sound_of_restore h).nonempty
  have hnew {count : Nat} : (∀ e ∈ s.entries, e.position ∉ positionsFrom s.nextPosition count) ↔
      ∀ e ∈ s.entries, if e.position < s.nextPosition then
        s.nextPosition + count ≤ wordLimit + e.position
      else s.nextPosition + count ≤ e.position :=
    forall₂_congr fun e he => not_mem_positionsFrom_iff (positions e (hentries ▸ he)) hnext
  refine ⟨hnext, lt_nextPosition_iff hnext, nextPosition?_eq_ite s, ?_⟩
  refine ⟨extend?_eq_none_iff hs haxes, fun {t report} => ⟨fun hextend => ?_, fun hextend => ?_⟩⟩
  · have hroom := HasRoom.of_extend? hs haxes hextend
    have hunchecked := extend?_refines _ hextend
    have hstream := hroom.stream
    have hafter := (lt_nextPosition_iff hnext).mpr hroom.entries
    refine ⟨hunchecked, positionsFrom_eq_range' hstream.le, ?_, hnew.mpr fun e he => ?_⟩
    · rw [(exists_of_extend hunchecked).2 hnext, positionAfter_of_lt hstream]
    · rw [if_pos (hafter e he)]
      omega
  · obtain ⟨hnumbered, hstops⟩ := exists_of_extend hextend
    exact ⟨hnumbered, hstops hnext, hnew⟩

/-- The stored stream had been read further than its entries stand. -/
theorem numbers_of_restore_two_runs :
    let run (time : Int) : AxisValue := .runtime ⟨time, 0⟩
    let x : Snapshot :=
      ⟨1, .lastWins, [⟨"runtime", .runtime, [run 0]⟩],
        [⟨8, ⟨0, 28, 56, 0⟩, [0]⟩, ⟨4, ⟨0, 0, 28, 0⟩, [0]⟩], 10⟩
    let field (offset : Nat) : Field :=
      ⟨1, offset, 28, 0, 98, ⟨0, 0⟩, 0, ⟨0, 0, 0⟩, .instant 0, none, none⟩
    let records := [field 0, field 28]
    ((∀ e ∈ x.entries, e.position < wordLimit) ∧ x.nextPosition < wordLimit) ∧
      ∃ s t report, restore x = .ok s ∧ s.nextPosition? = some s.nextPosition ∧
        (∀ e ∈ s.entries, e.position < s.nextPosition) ∧
        (s.extend? [FieldDimension.runtime.dimension] records {}).run = some (.ok (t, report)) ∧
        s.extend [FieldDimension.runtime.dimension] records {} = .ok (t, report) ∧
        t.consumed = 12 ∧ t.entries.map Entry.position = [8, 4, 10, 11] ∧
        ∀ e ∈ s.entries, e.position ∉ positionsFrom s.nextPosition 2 := by
  intro run x field records
  have hpositions : ∀ e ∈ x.entries, e.position < wordLimit := by decide
  have hrestored : restore x = .ok (assemble x.axes x.entries .lastWins 10) := rfl
  obtain ⟨-, hafter, hnext, hextension⟩ := numbers_of_restore hrestored hpositions (by decide)
  let s := assemble x.axes x.entries .lastWins 10
  have hfound : ((s.extend? [FieldDimension.runtime.dimension] records {}).run.bind
      Except.toOption).map (fun result => (result.1.consumed, result.1.entries.map Entry.position)) =
        some (12, [8, 4, 10, 11]) := by decide +kernel
  obtain ⟨⟨t, report⟩, hextend, hfound⟩ := Option.map_eq_some_iff.mp hfound
  obtain ⟨result, hextend, hok⟩ := Option.bind_eq_some_iff.mp hextend
  rw [Except.toOption_eq_some_iff] at hok
  rw [hok] at hextend
  obtain ⟨hconsumed, hnumbered⟩ := Prod.mk.inj hfound
  obtain ⟨hunchecked, -, -, hnew⟩ := (hextension.2 (t := t)).1 hextend
  have hbefore : ∀ e ∈ s.entries, e.position + 1 < wordLimit := by decide
  exact ⟨⟨hpositions, by decide⟩, s, t, report, hrestored, hnext.trans (if_pos hbefore),
    hafter.mpr hbefore, hextend, hunchecked, hconsumed, hnumbered, hnew⟩

/-- Two entries at the last positions there are. A checked run has no position for a third record,
and an unchecked one numbers it like the second. -/
theorem numbers_of_restore_last_position :
    let run (time : Int) : AxisValue := .runtime ⟨time, 0⟩
    let x : Snapshot :=
      ⟨1, .lastWins, [⟨"runtime", .runtime, [run 0]⟩],
        [⟨wordLimit - 2, ⟨0, 0, 28, 0⟩, [0]⟩, ⟨wordLimit - 1, ⟨0, 28, 28, 0⟩, [0]⟩], 0⟩
    let record : Field := ⟨1, 0, 28, 0, 98, ⟨0, 0⟩, 0, ⟨0, 0, 0⟩, .instant 0, none, none⟩
    ∃ s t report, restore x = .ok s ∧ s.nextPosition? = none ∧
      (s.extend? [FieldDimension.runtime.dimension] [record] {}).run = none ∧
      s.nextPosition = wordLimit - 1 ∧
      s.extend [FieldDimension.runtime.dimension] [record] {} = .ok (t, report) ∧
      t.entries = x.entries ++ [⟨wordLimit - 1, ⟨1, 0, 28, 0⟩, [0]⟩] := by
  intro run x record
  let s := assemble x.axes x.entries .lastWins 0
  have hnone : (s.extend? [FieldDimension.runtime.dimension] [record] {}).run = none :=
    Option.isNone_iff_eq_none.mp (by decide +kernel)
  have hfound : (s.extend [FieldDimension.runtime.dimension] [record] {}).toOption.map
      (fun result => result.1.entries) =
        some (x.entries ++ [⟨wordLimit - 1, ⟨1, 0, 28, 0⟩, [0]⟩]) := by decide +kernel
  obtain ⟨⟨t, report⟩, hextend, hentries⟩ := Option.map_eq_some_iff.mp hfound
  rw [Except.toOption_eq_some_iff] at hextend
  exact ⟨s, t, report, rfl, by decide, hnone, by decide, hextend, hentries⟩

end Space

end GribCatalog
