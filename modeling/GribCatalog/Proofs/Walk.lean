import GribCatalog.Proofs.Scan

/-! Walking the sections of a message. Sections run from one byte to another when each has the
length that it says and starts where the one before it ends. A walk comes to the sections that run
from the indicator to an end marker, and where there are none it stops behind a run that cannot go
on. -/

namespace GribCatalog

namespace Section

def finish (s : Section) : Nat :=
  s.offset + s.bytes.length

/-- The section that starts at a byte. Its length is in four bytes there, its number in the fifth.
-/
def startingAt (m : Bytes) (offset : Nat) : Section :=
  ⟨m.byteAt (offset + 4), offset, m.slice offset (m.wordAt offset 4)⟩

def EndsAt (m : Bytes) (i : Nat) : Prop :=
  endMarker <+: m.drop i

structure StartsAt (m : Bytes) (offset : Nat) : Prop where
  unmarked : ¬ EndsAt m offset
  least : 5 ≤ m.wordAt offset 4
  inside : offset + m.wordAt offset 4 ≤ m.length

inductive StuckAt (m : Bytes) (i : Nat) : ScanFault → Prop
  | short : ¬ EndsAt m i → m.length < i + 5 → StuckAt m i (.inSection 8 .noEndMarker)
  | misfit : ¬ EndsAt m i → i + 5 ≤ m.length →
      (m.wordAt i 4 < 5 ∨ m.length < i + m.wordAt i 4) →
      StuckAt m i (.inSection (m.byteAt (i + 4)) (.badLength (m.wordAt i 4) i))

structure Run (m : Bytes) (start : Nat) (sections : List Section) (stop : Nat) : Prop where
  sound : ∀ s ∈ sections, StartsAt m s.offset ∧ s = startingAt m s.offset
  joined : sections.map offset ++ [stop] = start :: sections.map finish

structure Tiles (m : Bytes) (sections : List Section) (stop : Nat) : Prop where
  run : Run m indicatorLength sections stop
  marked : EndsAt m stop

variable {m : Bytes} {start stop i : Nat} {s : Section} {sections : List Section}

/-! ### One section -/

theorem endsAt_iff : EndsAt m i ↔ (m.drop i).take 4 = endMarker := by
  rw [EndsAt, List.prefix_iff_eq_take, eq_comm]
  rfl

theorem EndsAt.le_length (h : EndsAt m i) : i + 4 ≤ m.length := by
  have := h.length_le
  simp only [endMarker, List.length_cons, List.length_nil, List.length_drop] at this
  omega

theorem StartsAt.length_bytes (h : StartsAt m i) :
    (startingAt m i).bytes.length = m.wordAt i 4 := by
  have := h.inside
  rw [startingAt, Bytes.slice, List.length_take, List.length_drop]
  omega

theorem StartsAt.finish_eq (h : StartsAt m i) : (startingAt m i).finish = i + m.wordAt i 4 := by
  rw [finish, h.length_bytes]
  rfl

/-- From every byte a walk ends, takes a section or cannot go on. -/
theorem cases_at (m : Bytes) (i : Nat) :
    EndsAt m i ∨ StartsAt m i ∨ ∃ fault, StuckAt m i fault := by
  by_cases marked : EndsAt m i
  · exact .inl marked
  refine .inr ?_
  by_cases short : m.length < i + 5
  · exact .inr ⟨_, .short marked short⟩
  by_cases misfit : m.wordAt i 4 < 5 ∨ m.length < i + m.wordAt i 4
  · exact .inr ⟨_, .misfit marked (Nat.le_of_not_lt short) misfit⟩
  · rw [not_or] at misfit
    exact .inl ⟨marked, Nat.le_of_not_lt misfit.1, Nat.le_of_not_lt misfit.2⟩

theorem chain_of_endsAt (h : EndsAt m i) : chain i (m.drop i) = .ok [] := by
  rw [chain, if_pos (endsAt_iff.mp h)]

theorem chain_of_stuckAt {fault : ScanFault} (h : StuckAt m i fault) :
    chain i (m.drop i) = .error fault := by
  cases h with
  | short unmarked short =>
    rw [chain, if_neg (mt endsAt_iff.mpr unmarked),
      if_pos (by rw [List.length_drop]; omega)]
  | misfit unmarked long misfit =>
    rw [chain, if_neg (mt endsAt_iff.mpr unmarked),
      if_neg (by rw [List.length_drop]; omega)]
    simp only [Bytes.wordAt_drop, Bytes.byteAt_drop, Nat.add_zero]
    rw [dif_pos (by rw [List.length_drop]; omega)]

theorem chain_of_startsAt (h : StartsAt m i) :
    chain i (m.drop i) =
      (chain (startingAt m i).finish (m.drop (startingAt m i).finish)).map
        (startingAt m i :: ·) := by
  have hleast := h.least
  have hinside := h.inside
  rw [h.finish_eq, chain, if_neg (mt endsAt_iff.mpr h.unmarked),
    if_neg (by rw [List.length_drop]; omega)]
  simp only [Bytes.wordAt_drop, Bytes.byteAt_drop, Nat.add_zero]
  rw [dif_neg (by rw [List.length_drop]; omega), List.drop_drop]
  rfl

/-! ### Runs of sections -/

theorem run_nil_iff : Run m start [] stop ↔ stop = start := by
  constructor
  · intro h
    simpa using h.joined
  · rintro rfl
    exact ⟨by simp, rfl⟩

theorem run_cons_iff :
    Run m start (s :: sections) stop ↔
      StartsAt m start ∧ s = startingAt m start ∧ Run m s.finish sections stop := by
  constructor
  · rintro ⟨sound, joined⟩
    rw [List.forall_mem_cons] at sound
    obtain ⟨rfl, following⟩ := List.cons.inj joined
    exact ⟨sound.1.1, sound.1.2, sound.2, following⟩
  · rintro ⟨starts, rfl, sound, joined⟩
    refine ⟨List.forall_mem_cons.mpr ⟨⟨starts, rfl⟩, sound⟩, ?_⟩
    rw [List.map_cons, List.cons_append, joined]
    rfl

theorem Run.le (h : Run m start sections stop) : start ≤ stop := by
  induction sections generalizing start with
  | nil => exact Nat.le_of_eq (run_nil_iff.mp h).symm
  | cons s sections ih =>
    obtain ⟨starts, rfl, rest⟩ := run_cons_iff.mp h
    have := ih rest
    have := starts.finish_eq
    omega

/-- A walk passes over a run and goes on behind it. -/
theorem Run.chain_eq (h : Run m start sections stop) :
    chain start (m.drop start) = (chain stop (m.drop stop)).map (sections ++ ·) := by
  induction sections generalizing start with
  | nil =>
    obtain rfl := run_nil_iff.mp h
    cases chain stop (m.drop stop) <;> rfl
  | cons s sections ih =>
    obtain ⟨starts, rfl, rest⟩ := run_cons_iff.mp h
    rw [chain_of_startsAt starts, ih rest]
    cases chain stop (m.drop stop) <;> rfl

/-- There is a run to a byte where a walk ends or cannot go on. -/
theorem exists_run (m : Bytes) (start : Nat) :
    ∃ sections stop, Run m start sections stop ∧
      (EndsAt m stop ∨ ∃ fault, StuckAt m stop fault) := by
  -- every section takes bytes off the message
  induction hn : m.length - start using Nat.strongRecOn generalizing start with
  | _ n ih =>
    rcases cases_at m start with ends | starts | stuck
    · exact ⟨[], start, run_nil_iff.mpr rfl, .inl ends⟩
    · have hfinish := starts.finish_eq
      have hleast := starts.least
      have hinside := starts.inside
      obtain ⟨sections, stop, rest, ending⟩ :=
        ih (m.length - (startingAt m start).finish) (by omega) _ rfl
      exact ⟨_ :: sections, stop, run_cons_iff.mpr ⟨starts, rfl, rest⟩, ending⟩
    · exact ⟨[], start, run_nil_iff.mpr rfl, .inr stuck⟩

theorem Run.chain_of_endsAt (h : Run m start sections stop) (ends : EndsAt m stop) :
    chain start (m.drop start) = .ok sections := by
  rw [h.chain_eq, Section.chain_of_endsAt ends, Except.map, List.append_nil]

theorem Run.chain_of_stuckAt {fault : ScanFault} (h : Run m start sections stop)
    (stuck : StuckAt m stop fault) : chain start (m.drop start) = .error fault := by
  rw [h.chain_eq, Section.chain_of_stuckAt stuck, Except.map]

/-- The sections of a run, one after the other, are the bytes that it goes over. -/
theorem Run.flatten_bytes (h : Run m start sections stop) :
    (sections.map Section.bytes).flatten = m.slice start (stop - start) := by
  induction sections generalizing start with
  | nil =>
    obtain rfl := run_nil_iff.mp h
    simp [Bytes.slice]
  | cons s sections ih =>
    obtain ⟨starts, rfl, rest⟩ := run_cons_iff.mp h
    have hfinish := starts.finish_eq
    have hle := rest.le
    have hsplit : stop - start = m.wordAt start 4 + (stop - (startingAt m start).finish) := by
      omega
    rw [List.map_cons, List.flatten_cons, ih rest, hsplit, Bytes.slice, Bytes.slice,
      List.take_add, List.drop_drop, ← hfinish]
    rfl

theorem Run.pairwise (run : Run m start sections stop) :
    (∀ s ∈ sections, start ≤ s.offset ∧ s.offset + 5 ≤ s.finish ∧ s.finish ≤ stop) ∧
      sections.Pairwise fun s t => s.finish ≤ t.offset := by
  induction sections generalizing start with
  | nil => exact ⟨nofun, .nil⟩
  | cons s sections ih =>
    obtain ⟨starts, rfl, rest⟩ := run_cons_iff.mp run
    obtain ⟨hbounds, hpairs⟩ := ih rest
    have hfinish := starts.finish_eq
    have hleast := starts.least
    have hle := rest.le
    have hoffset : (startingAt m start).offset = start := rfl
    refine ⟨List.forall_mem_cons.mpr ⟨by omega, fun t ht => ?_⟩,
      .cons (fun t ht => (hbounds t ht).1) hpairs⟩
    have := hbounds t ht
    omega

theorem Run.slice_eq (run : Run m start sections stop) (hs : s ∈ sections) :
    m.slice s.offset s.bytes.length = s.bytes := by
  obtain ⟨starts, heq⟩ := run.sound s hs
  rw [heq, starts.length_bytes]
  rfl

/-! ### Walks -/

theorem ofMessage_eq_ok_iff : ofMessage m = .ok sections ↔ ∃ stop, Tiles m sections stop := by
  constructor
  · intro h
    obtain ⟨found, stop, run, ends | ⟨fault, stuck⟩⟩ := exists_run m indicatorLength
    · obtain rfl := Except.ok.inj (h.symm.trans (run.chain_of_endsAt ends))
      exact ⟨stop, run, ends⟩
    · cases h.symm.trans (run.chain_of_stuckAt stuck)
  · rintro ⟨stop, run, ends⟩
    exact run.chain_of_endsAt ends

theorem ofMessage_eq_error_iff {fault : ScanFault} :
    ofMessage m = .error fault ↔
      ∃ sections stop, Run m indicatorLength sections stop ∧ StuckAt m stop fault := by
  constructor
  · intro h
    obtain ⟨found, stop, run, ends | ⟨fault', stuck⟩⟩ := exists_run m indicatorLength
    · cases h.symm.trans (run.chain_of_endsAt ends)
    · obtain rfl := Except.error.inj (h.symm.trans (run.chain_of_stuckAt stuck))
      exact ⟨found, stop, run, stuck⟩
  · rintro ⟨sections, stop, run, stuck⟩
    exact run.chain_of_stuckAt stuck

theorem Tiles.unique {stop' : Nat} {sections' : List Section} (h : Tiles m sections stop)
    (h' : Tiles m sections' stop') : sections = sections' ∧ stop = stop' := by
  have hwalk := ofMessage_eq_ok_iff.mpr ⟨stop, h⟩
  obtain rfl := Except.ok.inj (hwalk.symm.trans (ofMessage_eq_ok_iff.mpr ⟨stop', h'⟩))
  have hstops := List.append_cancel_left (h.run.joined.trans h'.run.joined.symm)
  exact ⟨rfl, List.singleton_inj.mp hstops⟩

/-- A walk that comes to no sections names a section. -/
theorem StuckAt.inSection {fault : ScanFault} (h : StuckAt m i fault) :
    ∃ number f, fault = .inSection number f := by
  cases h with
  | short => exact ⟨_, _, rfl⟩
  | misfit => exact ⟨_, _, rfl⟩

theorem withNumber_eq_ok_iff {number : UInt8} :
    withNumber number sections = .ok s ↔
      ∃ before after, sections = before ++ s :: after ∧ s.number = number ∧
        ∀ t ∈ before, t.number ≠ number := by
  have hfind : withNumber number sections = .ok s ↔
      sections.find? (·.number = number) = some s := by
    unfold withNumber
    split
    · next hfound => rw [hfound, Except.ok.injEq, Option.some.injEq]
    · next hnone => simp [hnone]
  rw [hfind, List.find?_eq_some_iff_append]
  constructor
  · rintro ⟨hnumber, before, after, rfl, hbefore⟩
    exact ⟨before, after, rfl, by simpa using hnumber, by simpa using hbefore⟩
  · rintro ⟨before, after, rfl, hnumber, hbefore⟩
    exact ⟨by simpa using hnumber, before, after, rfl, by simpa using hbefore⟩

theorem inSection_of_withNumber {number : UInt8} {fault : ScanFault}
    (h : withNumber number sections = .error fault) : fault = .inSection number .notFound := by
  unfold withNumber at h
  split at h
  · cases h
  · exact (Except.error.inj h).symm

/-- A walk comes to the only sections that tile a message from its indicator to an end marker, and
to a fault of a section behind a run that cannot go on where there are none. The first section of a
number is found among them. -/
theorem walk_tiles (m : Bytes) :
    (∀ sections, ofMessage m = .ok sections ↔ ∃ stop, Tiles m sections stop) ∧
    (∀ sections stop, Tiles m sections stop →
      (∀ sections' stop', Tiles m sections' stop' → sections = sections' ∧ stop = stop') ∧
      indicatorLength ≤ stop ∧ stop + 4 ≤ m.length ∧
      (sections.map Section.bytes).flatten = m.slice indicatorLength (stop - indicatorLength)) ∧
    (∀ fault, ofMessage m = .error fault ↔
      ∃ sections stop, Run m indicatorLength sections stop ∧ StuckAt m stop fault) ∧
    ((∀ sections stop, ¬ Tiles m sections stop) →
      ∃ number fault, ofMessage m = .error (.inSection number fault)) ∧
    (∀ number s, (ofMessage m).bind (withNumber number) = .ok s ↔
      ∃ before after stop, Tiles m (before ++ s :: after) stop ∧ s.number = number ∧
        ∀ t ∈ before, t.number ≠ number) ∧
    ∀ number, (∀ s, (ofMessage m).bind (withNumber number) ≠ .ok s) →
      ∃ place fault, (ofMessage m).bind (withNumber number) = .error (.inSection place fault) := by
  have stuck {fault : ScanFault} (h : ofMessage m = .error fault) :
      ∃ number f, fault = .inSection number f := by
    obtain ⟨sections, stop, -, stuck⟩ := ofMessage_eq_error_iff.mp h
    exact stuck.inSection
  refine ⟨fun sections => ofMessage_eq_ok_iff, ?_, fun fault => ofMessage_eq_error_iff, ?_, ?_, ?_⟩
  · intro sections stop tiles
    exact ⟨fun sections' stop' tiles' => tiles.unique tiles', tiles.run.le,
      tiles.marked.le_length, tiles.run.flatten_bytes⟩
  · intro none
    cases hwalk : ofMessage m with
    | ok sections =>
      obtain ⟨stop, tiles⟩ := ofMessage_eq_ok_iff.mp hwalk
      exact absurd tiles (none sections stop)
    | error fault =>
      obtain ⟨number, f, rfl⟩ := stuck hwalk
      exact ⟨number, f, rfl⟩
  · intro number s
    constructor
    · intro h
      obtain ⟨sections, hwalk, hnumber⟩ := Except.bind_eq_ok_iff.mp h
      obtain ⟨stop, tiles⟩ := ofMessage_eq_ok_iff.mp hwalk
      obtain ⟨before, after, rfl, hfirst⟩ := withNumber_eq_ok_iff.mp hnumber
      exact ⟨before, after, stop, tiles, hfirst⟩
    · rintro ⟨before, after, stop, tiles, hfirst⟩
      exact Except.bind_eq_ok_iff.mpr ⟨_, ofMessage_eq_ok_iff.mpr ⟨stop, tiles⟩,
        withNumber_eq_ok_iff.mpr ⟨before, after, rfl, hfirst⟩⟩
  · intro number none
    cases hwalk : ofMessage m with
    | error fault =>
      obtain ⟨place, f, rfl⟩ := stuck hwalk
      exact ⟨place, f, rfl⟩
    | ok sections =>
      cases hfound : withNumber number sections with
      | ok s => exact absurd (Except.bind_eq_ok_iff.mpr ⟨sections, hwalk, hfound⟩) (none s)
      | error fault =>
        obtain rfl := inSection_of_withNumber hfound
        exact ⟨number, .notFound, hfound⟩

/-- The message of June is tiled by its identification and its product definition. -/
theorem walk_tiles_june :
    let m := Message.june 1
    Tiles m [⟨1, 16, m.slice 16 21⟩, ⟨4, 37, m.slice 37 34⟩] 71 ∧
      (ofMessage m).bind (withNumber 4) = .ok ⟨4, 37, m.slice 37 34⟩ := by
  intro m
  have hwalk : ofMessage m = .ok [⟨1, 16, m.slice 16 21⟩, ⟨4, 37, m.slice 37 34⟩] := by
    decide +kernel
  obtain ⟨walks, -, -, -, finds, -⟩ := walk_tiles m
  obtain ⟨stop, tiles⟩ := (walks _).mp hwalk
  obtain rfl : stop = 71 :=
    List.singleton_inj.mp (List.cons.inj (List.cons.inj tiles.run.joined).2).2
  exact ⟨tiles, (finds 4 _).mpr ⟨[_], [], 71, tiles, rfl, by decide⟩⟩

end Section

end GribCatalog
