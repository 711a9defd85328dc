import GribCatalog.Proofs.Axis
import GribCatalog.Proofs.Sorting
import GribCatalog.Space.Survey

/-! The first pass. Taking records one by one comes to a closed form, and a batch
taken dimension by dimension comes to the same, its skips sorted back into the
order of the stream. Positions are words, so the stream has to fit in a word. -/

namespace GribCatalog

theorem positionAfter_of_lt {base i : Nat} (h : base + i < wordLimit) :
    positionAfter base i = base + i :=
  Nat.mod_eq_of_lt h

theorem positionAfter_lt (position count : Nat) : positionAfter position count < wordLimit :=
  Nat.mod_lt _ (by decide)

theorem positionAfter_positionAfter (position i j : Nat) :
    positionAfter (positionAfter position i) j = positionAfter position (i + j) := by
  rw [positionAfter, positionAfter, positionAfter, Nat.mod_add_mod, Nat.add_assoc]

/-- The positions of `count` records in turn, of which the first stands at `position`. -/
def positionsFrom (position : Nat) : Nat → List Nat
  | 0 => []
  | count + 1 => position :: positionsFrom (positionAfter position 1) count

/-- As long as the positions do not start over they count up. -/
theorem zip_positionsFrom {ρ : Type} {records : List ρ} {position : Nat}
    (fits : position + records.length ≤ wordLimit) :
    records.zip (positionsFrom position records.length) = records.zipIdx position := by
  induction records generalizing position with
  | nil => rfl
  | cons r records ih =>
    rw [List.length_cons] at fits ⊢
    rw [positionsFrom, List.zip_cons_cons, List.zipIdx_cons]
    refine congrArg ((r, position) :: ·) ?_
    cases records with
    | nil => rfl
    | cons s records =>
      -- another record follows, so that this position is not the last one
      rw [List.length_cons] at fits
      rw [positionAfter_of_lt (by omega)]
      exact ih (by rw [List.length_cons]; omega)

theorem pairwise_zipIdx {α : Type} (l : List α) (n : Nat) :
    (l.zipIdx n).Pairwise fun p q => p.2 < q.2 := by
  have := List.pairwise_lt_range' (s := n) (n := l.length)
  rw [← List.zipIdx_map_snd n l, List.pairwise_map] at this
  exact this

/-- Whether each of some dimensions has a value for a record. -/
def Dimension.allRead {ρ : Type} (dimensions : List (Dimension ρ)) (record : ρ) : Bool :=
  dimensions.all fun d => (d.extract record).isOk

namespace Survey

variable {ρ : Type}

/-- What dimensions say of the records that they skip, by record and then by dimension. The first
record stands at `position`. -/
def failures (dimensions : List (Dimension ρ)) (position : Nat) (records : List ρ) : List Skip :=
  (records.zipIdx position).flatMap fun (record, i) =>
    dimensions.filterMap fun d => skip? d i record

theorem position_of_skip? {d : Dimension ρ} {position : Nat} {record : ρ} {s : Skip}
    (h : skip? d position record = some s) : s.position = position := by
  obtain ⟨e, -, rfl⟩ := Option.map_eq_some_iff.mp h
  rfl

theorem skip?_eq_none_iff {d : Dimension ρ} {position : Nat} {record : ρ} :
    skip? d position record = none ↔ (d.extract record).isOk = true := by
  unfold skip? Dimension.fault?
  cases d.extract record <;> simp [Except.isOk, Except.toBool]

theorem filterMap_skip?_eq_nil_iff {dimensions : List (Dimension ρ)} {position : Nat}
    {record : ρ} :
    (dimensions.filterMap fun d => skip? d position record) = [] ↔
      Dimension.allRead dimensions record = true := by
  simp only [List.filterMap_eq_nil_iff, skip?_eq_none_iff, Dimension.allRead, List.all_eq_true]

theorem failures_cons (dimensions : List (Dimension ρ)) (position : Nat) (r : ρ)
    (records : List ρ) :
    failures dimensions position (r :: records) =
      (dimensions.filterMap fun d => skip? d position r) ++
        failures dimensions (position + 1) records := rfl

theorem failures_append (dimensions : List (Dimension ρ)) (position : Nat)
    (as bs : List ρ) :
    failures dimensions position (as ++ bs) =
      failures dimensions position as ++ failures dimensions (position + as.length) bs := by
  rw [failures, List.zipIdx_append, List.flatMap_append]
  rfl

theorem position_le_of_mem_failures {dimensions : List (Dimension ρ)} {position : Nat}
    {records : List ρ} {s : Skip} (h : s ∈ failures dimensions position records) :
    position ≤ s.position := by
  obtain ⟨p, hp, hs⟩ := List.mem_flatMap.mp h
  obtain ⟨d, -, hd⟩ := List.mem_filterMap.mp hs
  rw [position_of_skip? hd]
  exact (List.mem_zipIdx hp).1

/-- A record that a dimension cannot read is named among the skipped. -/
theorem exists_failure {dimensions : List (Dimension ρ)} {position : Nat} {records : List ρ}
    {p : ρ × Nat} (hp : p ∈ records.zipIdx position)
    (unread : Dimension.allRead dimensions p.1 = false) :
    ∃ s ∈ failures dimensions position records, s.position = p.2 := by
  have hne : (dimensions.filterMap fun d => skip? d p.2 p.1) ≠ [] := by
    rw [ne_eq, filterMap_skip?_eq_nil_iff, unread]
    exact Bool.false_ne_true
  obtain ⟨s, hs⟩ := List.exists_mem_of_ne_nil _ hne
  obtain ⟨d, -, hd⟩ := List.mem_filterMap.mp hs
  exact ⟨s, List.mem_flatMap.mpr ⟨p, hp, hs⟩, position_of_skip? hd⟩

theorem eraseDups_of_forall_eq {l : List Nat} {n : Nat} (h : ∀ m ∈ l, m = n) (hne : l ≠ []) :
    l.eraseDups = [n] := by
  cases l with
  | nil => exact absurd rfl hne
  | cons a l =>
    obtain ⟨rfl, hl⟩ := List.forall_mem_cons.mp h
    have : (l.filter fun b => !b == a) = [] := by
      rw [List.filter_eq_nil_iff]
      intro b hb
      simp [hl b hb]
    rw [List.eraseDups_cons, this, List.eraseDups_nil]

theorem eraseDups_append_of_forall_eq {first rest : List Nat} {n : Nat}
    (here : ∀ m ∈ first, m = n) (hne : first ≠ []) (later : n ∉ rest) :
    (first ++ rest).eraseDups = n :: rest.eraseDups := by
  have hrest : rest.removeAll first = rest := by
    rw [List.removeAll, List.filter_eq_self]
    intro m hm
    have : m ∉ first := fun hmem => later (here m hmem ▸ hm)
    simpa using this
  rw [List.eraseDups_append, eraseDups_of_forall_eq here hne, hrest]
  rfl

theorem length_eraseDups_failures (dimensions : List (Dimension ρ)) (position : Nat)
    (records : List ρ) :
    ((failures dimensions position records).map (·.position)).eraseDups.length =
      (records.filter fun r => !Dimension.allRead dimensions r).length := by
  induction records generalizing position with
  | nil => rfl
  | cons r records ih =>
    rw [failures_cons, List.map_append, List.filter_cons]
    cases hr : Dimension.allRead dimensions r with
    | true => simp [filterMap_skip?_eq_nil_iff.mpr hr, ih]
    | false =>
      have here : ∀ m ∈ (dimensions.filterMap fun d => skip? d position r).map (·.position),
          m = position := by
        intro m hm
        obtain ⟨s, hs, rfl⟩ := List.mem_map.mp hm
        obtain ⟨d, -, hd⟩ := List.mem_filterMap.mp hs
        exact position_of_skip? hd
      have hne : (dimensions.filterMap fun d => skip? d position r).map (·.position) ≠ [] := by
        rw [ne_eq, List.map_eq_nil_iff, filterMap_skip?_eq_nil_iff, hr]
        exact Bool.false_ne_true
      have later : position ∉
          (failures dimensions (position + 1) records).map (·.position) := by
        intro hm
        obtain ⟨s, hs, hposition⟩ := List.mem_map.mp hm
        have := position_le_of_mem_failures hs
        omega
      -- the positions of this record are one, and no later record repeats it
      rw [eraseDups_append_of_forall_eq here hne later]
      simp [ih]

theorem foldl_accumulate {records : List ρ} {s : Survey ρ}
    (fits : s.base + s.seen + records.length ≤ wordLimit) :
    records.foldl accumulate s =
      { gatherings := s.gatherings.map fun g => records.foldl Gathering.offer g
        skipped := s.skipped ++
          failures (s.gatherings.map Gathering.dimension) (s.base + s.seen) records
        seen := s.seen + records.length
        base := s.base } := by
  induction records generalizing s with
  | nil => simp [failures]
  | cons r records ih =>
    rw [List.length_cons] at fits
    have hposition : s.position = s.base + s.seen := positionAfter_of_lt (by omega)
    rw [List.foldl_cons, ih (by simp only [accumulate]; omega)]
    simp only [accumulate, failures, hposition, List.map_map, List.zipIdx_cons, List.flatMap_cons,
      List.filterMap_map, List.append_assoc, List.length_cons, List.foldl_cons,
      Function.comp_def, Gathering.offer_dimension, Nat.add_assoc, Nat.add_comm 1]

theorem skips_eq {d : Dimension ρ} {position : Nat} {records : List ρ}
    (fits : position + records.length ≤ wordLimit) :
    skips d position records =
      (records.zipIdx position).filterMap fun (record, i) => skip? d i record := by
  rw [skips, @List.zipIdx_eq_map_add _ records position, List.filterMap_map]
  refine List.filterMap_congr fun p hp => ?_
  have := (List.mem_zipIdx hp).2.1
  simp only [Function.comp_apply]
  rw [positionAfter_of_lt (by omega)]

/-- Records taken dimension by dimension come to the same as records taken one by one. -/
theorem accumulateByDimension_eq {s : Survey ρ} {records : List ρ}
    (fits : s.base + s.seen + records.length ≤ wordLimit) :
    s.accumulateByDimension records = records.foldl accumulate s := by
  rw [foldl_accumulate fits]
  cases records with
  | nil => simp [accumulateByDimension, skips, failures, List.flatMap]
  | cons r records =>
    rw [List.length_cons] at fits
    have hposition : s.position = s.base + s.seen := positionAfter_of_lt (by omega)
    have sorted := mergeSort_columns
      (fun (g : Gathering ρ) (p : ρ × Nat) => skip? g.dimension p.2 p.1)
      (fun _ _ _ h => position_of_skip? h) s.gatherings
      (pairwise_zipIdx (r :: records) (s.base + s.seen))
    have hskips (d : Dimension ρ) := @skips_eq _ d (s.base + s.seen) (r :: records) fits
    simp only [accumulateByDimension, hposition, hskips, failures, List.filterMap_map,
      Function.comp_def]
    exact congrArg (fun skipped => Survey.mk _ (s.skipped ++ skipped) _ _) sorted

theorem accumulateBatch_eq {s : Survey ρ} {records : List ρ} (options : BuildOptions)
    (fits : s.base + s.seen + records.length ≤ wordLimit) :
    s.accumulateBatch options records = records.foldl accumulate s := by
  unfold accumulateBatch
  split
  · exact accumulateByDimension_eq fits
  · rfl

theorem gatherings_foldl_accumulate (records : List ρ) (s : Survey ρ) :
    (records.foldl accumulate s).gatherings =
      s.gatherings.map fun g => records.foldl Gathering.offer g := by
  induction records generalizing s with
  | nil => simp
  | cons r records ih => simp [ih, accumulate]

theorem gatherings_accumulateBatch (records : List ρ) (s : Survey ρ)
    (options : BuildOptions) :
    (s.accumulateBatch options records).gatherings =
      s.gatherings.map fun g => records.foldl Gathering.offer g := by
  unfold accumulateBatch
  split
  · rfl
  · exact gatherings_foldl_accumulate records s

theorem base_foldl_accumulate (records : List ρ) (s : Survey ρ) :
    (records.foldl accumulate s).base = s.base := by
  induction records generalizing s with
  | nil => rfl
  | cons r records ih => rw [List.foldl_cons, ih, accumulate]

theorem base_accumulateBatch (records : List ρ) (s : Survey ρ) (options : BuildOptions) :
    (s.accumulateBatch options records).base = s.base := by
  unfold accumulateBatch
  split
  · rfl
  · exact base_foldl_accumulate records s

end Survey

end GribCatalog
