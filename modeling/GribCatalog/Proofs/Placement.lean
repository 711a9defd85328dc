import GribCatalog.Proofs.Survey
import GribCatalog.Space.Placement
import Mathlib.Data.List.Forall2

/-! The second pass. A record is placed exactly when all dimensions read it, as soon
as the axes hold what the dimensions read; a run over records that the first pass
has seen adds their entries in order and reports nothing twice. -/

namespace GribCatalog

variable {ρ : Type}

theorem checkDimensions_eq_ok_iff {axes : List Axis} {dimensions : List (Dimension ρ)} :
    checkDimensions axes dimensions = .ok () ↔
      List.Forall₂ (fun a d => a.kind = d.kind) axes dimensions := by
  rw [checkDimensions, List.forall₂_iff_zip]
  split
  · next hlength => simp [hlength]
  · next hlength =>
    have hlength := Decidable.of_not_not hlength
    split
    · next a d hfind =>
      have hmem := List.mem_of_find?_eq_some hfind
      have hkind := List.find?_some hfind
      simp only [reduceCtorEq, false_iff, not_and, not_forall]
      intro _
      exact ⟨a, d, hmem, by simpa using hkind⟩
    · next hfind =>
      rw [List.find?_eq_none] at hfind
      refine iff_of_true rfl ⟨hlength, fun h => ?_⟩
      simpa using hfind _ h

namespace Resolution

theorem cons_eq_found_iff {i : Nat} {r : Resolution} {indices : List Nat} :
    r.cons i = found indices ↔ ∃ rest, r = found rest ∧ indices = i :: rest := by
  cases r <;> simp [cons, eq_comm]

/-- A record is found at the places that its values have on the axes. -/
theorem ofRecord_eq_found_iff {record : ρ} {pairs : List (Dimension ρ × Axis)}
    {indices : List Nat} :
    ofRecord record pairs = found indices ↔
      List.Forall₂ (fun p i => ∃ v, p.1.extract record = .ok v ∧ p.2.index? v = some i)
        pairs indices := by
  induction pairs generalizing indices with
  | nil => simp [ofRecord, eq_comm]
  | cons p pairs ih =>
    obtain ⟨d, a⟩ := p
    rw [List.forall₂_cons_left_iff]
    cases hv : d.extract record with
    | error e => simp [ofRecord, hv]
    | ok v =>
      cases hi : a.index? v with
      | none => simp [ofRecord, hv, hi]
      | some i =>
        simp only [ofRecord, hv, hi, cons_eq_found_iff, ih]
        constructor
        · rintro ⟨rest, hrest, rfl⟩
          exact ⟨i, rest, ⟨v, rfl, hi⟩, hrest, rfl⟩
        · rintro ⟨j, rest, ⟨w, hw, hj⟩, hrest, rfl⟩
          cases hw
          rw [hi] at hj
          cases hj
          exact ⟨rest, hrest, rfl⟩

theorem inRange_of_found {record : ρ} {pairs : List (Dimension ρ × Axis)}
    {indices : List Nat} (h : ofRecord record pairs = found indices) :
    List.Forall₂ (· < ·) indices ((pairs.map Prod.snd).map Axis.size) := by
  rw [List.map_map, List.forall₂_map_right_iff]
  refine ((ofRecord_eq_found_iff.mp h).imp fun p i hi => ?_).flip
  obtain ⟨v, -, hi⟩ := hi
  exact Axis.lt_size_of_index? hi

/-- Every value of a record is on the axis of its dimension. -/
def Covers (record : ρ) (pairs : List (Dimension ρ × Axis)) : Prop :=
  ∀ p ∈ pairs, ∀ v, p.1.extract record = .ok v → v ∈ p.2.values

theorem ofRecord_found_of_covers {record : ρ} {pairs : List (Dimension ρ × Axis)}
    (covers : Covers record pairs) (read : Dimension.allRead (pairs.map Prod.fst) record = true) :
    ∃ indices, ofRecord record pairs = found indices := by
  induction pairs with
  | nil => exact ⟨[], rfl⟩
  | cons p pairs ih =>
    simp only [Dimension.allRead, List.map_cons, List.all_cons, Bool.and_eq_true] at read
    obtain ⟨rest, hrest⟩ := ih (fun q hq => covers q (List.mem_cons_of_mem p hq)) read.2
    cases hv : p.1.extract record with
    | error e => simp [hv, Except.isOk, Except.toBool] at read
    | ok v =>
      obtain ⟨i, hi⟩ := Axis.exists_index (covers p List.mem_cons_self v hv)
      exact ⟨i :: rest, by simp [ofRecord, hv, hi, hrest, cons]⟩

theorem ofRecord_unextractable_of_covers {record : ρ} {pairs : List (Dimension ρ × Axis)}
    (covers : Covers record pairs) (read : Dimension.allRead (pairs.map Prod.fst) record = false) :
    ∃ p ∈ pairs, ∃ e, p.1.extract record = .error e ∧
      ofRecord record pairs = unextractable p.1.name e := by
  induction pairs with
  | nil => cases read
  | cons p pairs ih =>
    cases hv : p.1.extract record with
    | error e => exact ⟨p, List.mem_cons_self, e, hv, by simp [ofRecord, hv]⟩
    | ok v =>
      obtain ⟨i, hi⟩ := Axis.exists_index (covers p List.mem_cons_self v hv)
      simp only [Dimension.allRead, List.map_cons, List.all_cons, hv] at read
      obtain ⟨q, hq, e, he, hrest⟩ := ih (fun q hq => covers q (List.mem_cons_of_mem p hq)) read
      exact ⟨q, List.mem_cons_of_mem p hq, e, he, by simp [ofRecord, hv, hi, hrest, cons]⟩

end Resolution

namespace Placement

variable [Located ρ]

def entryFor? (pairs : List (Dimension ρ × Axis)) (position : Nat) (r : ρ) : Option Entry :=
  match Resolution.ofRecord r pairs with
  | .found indices => some ⟨position, Located.location r, indices⟩
  | _ => none

theorem entryFor?_eq_some_iff {pairs : List (Dimension ρ × Axis)} {position : Nat} {r : ρ}
    {e : Entry} :
    entryFor? pairs position r = some e ↔
      e.position = position ∧ e.location = Located.location r ∧
        Resolution.ofRecord r pairs = .found e.indices := by
  unfold entryFor?
  cases e
  split
  · next indices h => simp [h, eq_comm]
  · next h => simpa using fun _ _ => h _

def entriesOf (pairs : List (Dimension ρ × Axis)) (position : Nat) (records : List ρ) :
    List Entry :=
  (records.zipIdx position).filterMap fun p => entryFor? pairs p.2 p.1

@[simp] theorem entriesOf_nil (pairs : List (Dimension ρ × Axis)) (position : Nat) :
    entriesOf pairs position [] = [] := rfl

theorem entriesOf_cons (pairs : List (Dimension ρ × Axis)) (position : Nat) (r : ρ)
    (records : List ρ) :
    entriesOf pairs position (r :: records) =
      (entryFor? pairs position r).toList ++ entriesOf pairs (position + 1) records := by
  unfold entriesOf
  rw [List.zipIdx_cons, List.filterMap_cons]
  simp only
  cases entryFor? pairs position r <;> rfl

theorem entriesOf_append (pairs : List (Dimension ρ × Axis)) (position : Nat) (as bs : List ρ) :
    entriesOf pairs position (as ++ bs) =
      entriesOf pairs position as ++ entriesOf pairs (position + as.length) bs := by
  rw [entriesOf, List.zipIdx_append, List.filterMap_append]
  rfl

theorem position_of_mem_entriesOf {pairs : List (Dimension ρ × Axis)} {position : Nat}
    {records : List ρ} {e : Entry} (h : e ∈ entriesOf pairs position records) :
    position ≤ e.position ∧ e.position < position + records.length := by
  obtain ⟨p, hp, he⟩ := List.mem_filterMap.mp h
  rw [(entryFor?_eq_some_iff.mp he).1]
  exact ⟨(List.mem_zipIdx hp).1, (List.mem_zipIdx hp).2.1⟩

/-- What a report already says of a record is all that there is to say. -/
def Settled (pairs : List (Dimension ρ × Axis)) (skipped : List Skip) (position : Nat) (r : ρ) :
    Prop :=
  (∃ indices, Resolution.ofRecord r pairs = .found indices) ∨
    (∃ d e, Resolution.ofRecord r pairs = .unextractable d e) ∧
      ∃ s ∈ skipped, s.position = position

/-- A settled record gets its entry and changes nothing in the report but the count. -/
theorem assign_of_settled {p : Placement ρ} {r : ρ}
    (settled : Settled (p.dimensions.zip p.axes) p.report.skipped p.position r) :
    p.assign r =
      let entry := (entryFor? (p.dimensions.zip p.axes) p.position r).toList
      { p with
        entries := p.entries ++ entry
        position := positionAfter p.position 1
        report := { p.report with indexed := p.report.indexed + entry.length } } := by
  unfold assign resolve entryFor?
  rcases settled with ⟨indices, h⟩ | ⟨⟨d, e, h⟩, hskip⟩
  · simp [h, record, note]
  · have hany : (p.report.skipped.any fun s => s.position = p.position) = true := by
      simpa using hskip
    simp [h, record, note, hany]

theorem foldl_assign {records : List ρ} {p : Placement ρ}
    (fits : p.position + records.length < wordLimit)
    (settled : ∀ q ∈ records.zipIdx p.position,
      Settled (p.dimensions.zip p.axes) p.report.skipped q.2 q.1) :
    records.foldl assign p =
      let entries := entriesOf (p.dimensions.zip p.axes) p.position records
      { p with
        entries := p.entries ++ entries
        position := p.position + records.length
        report := { p.report with indexed := p.report.indexed + entries.length } } := by
  induction records generalizing p with
  | nil => simp
  | cons r records ih =>
    rw [List.length_cons] at fits
    rw [List.zipIdx_cons, List.forall_mem_cons] at settled
    have hposition : positionAfter p.position 1 = p.position + 1 := positionAfter_of_lt (by omega)
    rw [List.foldl_cons, assign_of_settled settled.1, hposition]
    simp only
    rw [ih (by simp only; omega) settled.2]
    simp only [entriesOf_cons, List.append_assoc, List.length_append, List.length_cons,
      Nat.add_assoc, Nat.add_comm 1]

@[simp] theorem foldl_assign_axes (records : List ρ) (p : Placement ρ) :
    (records.foldl assign p).axes = p.axes := by
  induction records generalizing p with
  | nil => rfl
  | cons r records ih => rw [List.foldl_cons, ih, assign]

@[simp] theorem foldl_assign_policy (records : List ρ) (p : Placement ρ) :
    (records.foldl assign p).policy = p.policy := by
  induction records generalizing p with
  | nil => rfl
  | cons r records ih => rw [List.foldl_cons, ih, assign]

theorem assign_entries (p : Placement ρ) (r : ρ) :
    (p.assign r).entries =
      p.entries ++ (entryFor? (p.dimensions.zip p.axes) p.position r).toList := by
  unfold assign resolve entryFor?
  cases Resolution.ofRecord r (p.dimensions.zip p.axes) <;> simp [record]

/-- A run gives the records their positions in turn, whether or not the positions start over. -/
theorem foldl_assign_numbered (records : List ρ) (p : Placement ρ) :
    (records.foldl assign p).entries = p.entries ++
      (records.zip (positionsFrom p.position records.length)).filterMap fun q =>
        entryFor? (p.dimensions.zip p.axes) q.2 q.1 := by
  induction records generalizing p with
  | nil => exact (List.append_nil _).symm
  | cons r records ih =>
    have hposition : (p.assign r).position = positionAfter p.position 1 := rfl
    have hpairs : (p.assign r).dimensions.zip (p.assign r).axes = p.dimensions.zip p.axes := rfl
    rw [List.foldl_cons, ih, assign_entries, hposition, hpairs, List.append_assoc,
      List.length_cons, positionsFrom, List.zip_cons_cons, List.filterMap_cons]
    cases entryFor? (p.dimensions.zip p.axes) p.position r with
    | none => rfl
    | some e => rfl

theorem foldl_assign_stops {p : Placement ρ} (h : p.position < wordLimit) (records : List ρ) :
    (records.foldl assign p).position = positionAfter p.position records.length := by
  induction records generalizing p with
  | nil => exact (Nat.mod_eq_of_lt h).symm
  | cons r records ih =>
    have hnext : (p.assign r).position = positionAfter p.position 1 := rfl
    rw [List.foldl_cons, ih (hnext ▸ positionAfter_lt _ 1), hnext, positionAfter_positionAfter,
      List.length_cons, Nat.add_comm 1]

/-- A run adds entries behind those that there are, each of a record that has its indices. -/
theorem exists_foldl_assign (records : List ρ) (p : Placement ρ) :
    ∃ added, (records.foldl assign p).entries = p.entries ++ added ∧
      ∀ e ∈ added, ∃ r ∈ records, e.location = Located.location r ∧
        Resolution.ofRecord r (p.dimensions.zip p.axes) = .found e.indices := by
  refine ⟨_, foldl_assign_numbered records p, fun e he => ?_⟩
  obtain ⟨q, hq, hentry⟩ := List.mem_filterMap.mp he
  exact ⟨q.1, (List.of_mem_zip hq).1, (entryFor?_eq_some_iff.mp hentry).2⟩

theorem mem_foldl_assign {records : List ρ} {p : Placement ρ} {e : Entry}
    (h : e ∈ (records.foldl assign p).entries) :
    e ∈ p.entries ∨ ∃ r ∈ records, e.location = Located.location r ∧
      Resolution.ofRecord r (p.dimensions.zip p.axes) = .found e.indices := by
  obtain ⟨added, hadded, hfound⟩ := exists_foldl_assign records p
  rw [hadded] at h
  exact (List.mem_append.mp h).imp_right (hfound e)

end Placement

end GribCatalog
