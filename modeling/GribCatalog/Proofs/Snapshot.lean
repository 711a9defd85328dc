import GribCatalog.Proofs.Axis
import GribCatalog.Space.Snapshot
import Mathlib.Data.List.Forall2

/-! Snapshots that restore. A snapshot is refused for what breaks the rules of a
space and for nothing else, so every sound space comes back from its snapshot. -/

namespace GribCatalog

theorem foldl_max_of_le {l : List Nat} {n : Nat} (h : ∀ m ∈ l, m ≤ n) : l.foldl max n = n := by
  induction l with
  | nil => rfl
  | cons m l ih =>
    rw [List.forall_mem_cons] at h
    rw [List.foldl_cons, Nat.max_eq_left h.1, ih h.2]

theorem foldl_max_lt_iff {l : List Nat} {n k : Nat} :
    l.foldl max n < k ↔ n < k ∧ ∀ m ∈ l, m < k := by
  induction l generalizing n with
  | nil => simp
  | cons m l ih => simp [ih, and_assoc]

namespace Axis

theorem distinct_cons (v : AxisValue) (vs : List AxisValue) :
    distinct (v :: vs) = if v ∈ distinct vs then distinct vs else v :: distinct vs := rfl

theorem distinct_sublist (vs : List AxisValue) : (distinct vs).Sublist vs := by
  induction vs with
  | nil => exact .slnil
  | cons v vs ih =>
    rw [distinct_cons]
    split
    · exact ih.cons v
    · exact ih.cons_cons v

theorem nodup_distinct (vs : List AxisValue) : (distinct vs).Nodup := by
  induction vs with
  | nil => exact List.nodup_nil
  | cons v vs ih =>
    rw [distinct_cons]
    split
    · exact ih
    · next hv => exact List.nodup_cons.mpr ⟨hv, ih⟩

theorem indexSize_eq_size_iff {a : Axis} : a.indexSize = a.size ↔ a.values.Nodup := by
  constructor
  · intro h
    have := (distinct_sublist a.values).eq_of_length h
    exact this ▸ nodup_distinct a.values
  · intro h
    rw [indexSize, distinct_of_nodup h, size]

end Axis

namespace Snapshot

theorem outOfRange?_eq_none_iff {position axis : Nat} {pairs : List (Nat × Nat)} :
    outOfRange? position axis pairs = none ↔ ∀ p ∈ pairs, p.1 < p.2 := by
  induction pairs generalizing axis with
  | nil => simp [outOfRange?]
  | cons p pairs ih =>
    rw [outOfRange?, List.forall_mem_cons]
    split
    · next h => simp [h, ih]
    · next h => simp [h]

theorem entryFault?_eq_none_iff {shape : List Nat} {e : Entry} :
    entryFault? shape e = none ↔ List.Forall₂ (· < ·) e.indices shape := by
  rw [List.forall₂_iff_zip, entryFault?]
  split
  · next h => simp [h]
  · next h =>
    rw [outOfRange?_eq_none_iff]
    simp [Decidable.of_not_not h]

theorem axisFault?_eq_none_iff {a : Axis} : axisFault? a = none ↔ a.values.Nodup := by
  rw [axisFault?, ← Axis.indexSize_eq_size_iff]
  split <;> simp_all

theorem fault?_eq_none_iff {s : Snapshot} :
    s.fault? = none ↔ s.version = currentVersion ∧ s.axes ≠ [] ∧
      (∀ a ∈ s.axes, a.values.Nodup) ∧
      ∀ e ∈ s.entries, List.Forall₂ (· < ·) e.indices (s.axes.map Axis.size) := by
  unfold fault?
  split
  · next h => simp [h]
  · next h =>
    have version := Decidable.of_not_not h
    split
    · next h => simp [List.isEmpty_iff.mp h]
    · next h =>
      have nonempty : s.axes ≠ [] := by simpa using h
      split
      · next fault h =>
        obtain ⟨a, ha, hfault⟩ := List.exists_of_findSome?_eq_some h
        have : ¬ a.values.Nodup := fun hnodup => by
          rw [axisFault?_eq_none_iff.mpr hnodup] at hfault
          cases hfault
        simp only [reduceCtorEq, false_iff, not_and]
        exact fun _ _ hall => absurd (hall a ha) this
      · next h =>
        simp only [List.findSome?_eq_none_iff, axisFault?_eq_none_iff] at h
        simp only [Option.map_eq_none_iff, List.findSome?_eq_none_iff, entryFault?_eq_none_iff]
        exact ⟨fun hall => ⟨version, nonempty, h, hall⟩, fun hall => hall.2.2.2⟩

end Snapshot

namespace Space

structure Sound (s : Space) : Prop where
  nonempty : s.axes ≠ []
  nodup : ∀ a ∈ s.axes, a.values.Nodup
  inRange : ∀ e ∈ s.entries, List.Forall₂ (· < ·) e.indices s.shape
  cells : s.cells = Cell.ofEntries s.policy s.entries

theorem nextPosition_consumed (s : Space) :
    nextPosition { s with consumed := s.nextPosition } = s.nextPosition := by
  have hall := (foldl_max_lt_iff.mp (Nat.lt_succ_self s.nextPosition)).2
  exact foldl_max_of_le fun n hn => Nat.le_of_lt_succ (hall n hn)

theorem restore_eq_ok_iff {snapshot : Snapshot} {s : Space} :
    restore snapshot = .ok s ↔ snapshot.fault? = none ∧
      assemble snapshot.axes snapshot.entries snapshot.policy snapshot.nextPosition = s := by
  rw [restore]
  split
  · next fault h => simp [h]
  · next h => simp [h]

/-- A sound space comes back from its snapshot. -/
theorem Sound.restore_snapshot {s : Space} (h : s.Sound) :
    restore s.snapshot = .ok { s with consumed := s.nextPosition } := by
  have : s.snapshot.fault? = none :=
    Snapshot.fault?_eq_none_iff.mpr ⟨rfl, h.nonempty, h.nodup, h.inRange⟩
  rw [restore, this]
  simp only [snapshot, assemble, ← h.cells]

end Space

end GribCatalog
