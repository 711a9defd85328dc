import GribCatalog.Proofs.Invariant

/-! Seeds that are refused. How many axes there are is checked before a value is added, but their
kinds are checked one by one while values are added: what came before the first axis of a wrong kind
stays, and nothing else of the survey changes. -/

namespace GribCatalog

variable {ρ : Type}

namespace Gathering

theorem add_of_mem {g : Gathering ρ} {v : AxisValue} (h : v ∈ g.values) : g.add v = g := by
  rw [add, List.insert_of_mem h]

/-- Adding values leaves no trace when all of them are there. -/
theorem foldl_add_eq_self_iff {g : Gathering ρ} {values : List AxisValue} :
    values.foldl add g = g ↔ ∀ v ∈ values, v ∈ g.values := by
  constructor
  · intro hsame v hv
    rw [← hsame]
    exact mem_foldl_add.mpr (.inr hv)
  · intro h
    induction values with
    | nil => rfl
    | cons v values ih =>
      rw [List.forall_mem_cons] at h
      rw [List.foldl_cons, add_of_mem h.1]
      exact ih h.2

end Gathering

namespace Survey

def Takes (p : Gathering ρ × Axis) : Prop :=
  p.2.kind = p.1.dimension.kind

instance (p : Gathering ρ × Axis) : Decidable (Takes p) :=
  inferInstanceAs (Decidable (_ = _))

def taken (p : Gathering ρ × Axis) : Gathering ρ :=
  p.2.values.foldl Gathering.add p.1

theorem mem_axis_taken {p : Gathering ρ × Axis} {v : AxisValue} :
    v ∈ (taken p).axis.values ↔ v ∈ p.1.axis.values ∨ v ∈ p.2.values := by
  rw [Gathering.axis, Gathering.axis, Dimension.mem_sort, Dimension.mem_sort]
  exact Gathering.mem_foldl_add

/-- The axes that are taken do not bear on what becomes of the others. -/
theorem addAxes_append {before : List (Gathering ρ × Axis)} (h : ∀ p ∈ before, Takes p)
    (gatherings : List (Gathering ρ)) (axes : List Axis) :
    addAxes (before.map Prod.fst ++ gatherings) (before.map Prod.snd ++ axes) =
      (before.map taken ++ (addAxes gatherings axes).1, (addAxes gatherings axes).2) := by
  induction before with
  | nil => rfl
  | cons p before ih =>
    rw [List.forall_mem_cons] at h
    have hadd : p.1.addAll p.2 = .ok (taken p) := if_pos h.1
    simp only [List.map_cons, List.cons_append, addAxes, hadd, ih h.2]

theorem addAxes_of_not_takes {g : Gathering ρ} {a : Axis} (h : ¬ Takes (g, a))
    (gatherings : List (Gathering ρ)) (axes : List Axis) :
    addAxes (g :: gatherings) (a :: axes) =
      (g :: gatherings, .error (.mismatch g.dimension.kind a.kind)) := by
  have hadd : g.addAll a = .error (.mismatch g.dimension.kind a.kind) := if_neg h
  rw [addAxes, hadd]

theorem exists_first_refused (pairs : List (Gathering ρ × Axis)) :
    (∀ p ∈ pairs, Takes p) ∨ ∃ before g a rest, pairs = before ++ (g, a) :: rest ∧
      (∀ p ∈ before, Takes p) ∧ ¬ Takes (g, a) := by
  induction pairs with
  | nil => exact .inl nofun
  | cons p pairs ih =>
    by_cases hp : Takes p
    · rcases ih with hall | ⟨before, g, a, rest, rfl, hbefore, hrefused⟩
      · exact .inl (List.forall_mem_cons.mpr ⟨hp, hall⟩)
      · refine .inr ⟨p :: before, g, a, rest, rfl, ?_, hrefused⟩
        exact List.forall_mem_cons.mpr ⟨hp, hbefore⟩
    · exact .inr ⟨[], p.1, p.2, pairs, rfl, nofun, hp⟩

theorem seed_of_length {s : Survey ρ} {axes : List Axis} (h : axes.length = s.gatherings.length) :
    s.seed axes = ({ s with gatherings := (addAxes s.gatherings axes).1 },
      (addAxes s.gatherings axes).2) :=
  if_neg (not_not_intro h)

theorem with_gatherings_eq_self_iff {s : Survey ρ} {gatherings : List (Gathering ρ)} :
    { s with gatherings } = s ↔ gatherings = s.gatherings := by
  cases s
  simp

/-- A seed that is refused for the number of its axes changes nothing. One that is refused for the
kind of an axis is refused at the first such axis. The gatherings before it, and so the axes that are
made of them, have the values of their axes by then, and that is all that changes. So the survey is
as it was exactly when these values had all been gathered already. -/
theorem seed_refused {s : Survey ρ} {axes : List Axis} {e : IndexFault}
    (h : (s.seed axes).2 = .error e) :
    (axes.length ≠ s.gatherings.length ∧ e = .arity s.gatherings.length axes.length ∧
      (s.seed axes).1 = s) ∨
    ∃ before g a rest, s.gatherings.zip axes = before ++ (g, a) :: rest ∧
      (∀ p ∈ before, Takes p) ∧ ¬ Takes (g, a) ∧ e = .mismatch g.dimension.kind a.kind ∧
      (s.seed axes).1 = { s with gatherings := before.map taken ++ g :: rest.map Prod.fst } ∧
      (∀ p ∈ before, ∀ v, v ∈ (taken p).axis.values ↔ v ∈ p.1.axis.values ∨ v ∈ p.2.values) ∧
      ((s.seed axes).1 = s ↔ ∀ p ∈ before, ∀ v ∈ p.2.values, v ∈ p.1.values) := by
  by_cases hcount : axes.length = s.gatherings.length
  · right
    rw [seed_of_length hcount] at h ⊢
    have hgatherings : s.gatherings = (s.gatherings.zip axes).map Prod.fst :=
      (List.map_fst_zip (Nat.le_of_eq hcount.symm)).symm
    have haxes : axes = (s.gatherings.zip axes).map Prod.snd :=
      (List.map_snd_zip (Nat.le_of_eq hcount)).symm
    rcases exists_first_refused (s.gatherings.zip axes) with
      hall | ⟨before, g, a, rest, hpairs, hbefore, hrefused⟩
    · -- then nothing would have been refused
      have hadded := addAxes_append hall [] []
      rw [List.append_nil, List.append_nil, ← hgatherings, ← haxes] at hadded
      rw [hadded] at h
      cases h
    · rw [hpairs, List.map_append, List.map_cons] at hgatherings haxes
      have hadded : addAxes s.gatherings axes =
          (before.map taken ++ g :: rest.map Prod.fst,
            .error (.mismatch g.dimension.kind a.kind)) := by
        rw [hgatherings, haxes, addAxes_append hbefore, addAxes_of_not_takes hrefused]
      rw [hadded] at h ⊢
      refine ⟨before, g, a, rest, hpairs, hbefore, hrefused, (Except.error.inj h).symm, rfl,
        fun p _ v => mem_axis_taken, ?_⟩
      rw [with_gatherings_eq_self_iff, hgatherings, List.append_left_inj, List.map_inj_left]
      exact forall₂_congr fun p _ => Gathering.foldl_add_eq_self_iff
  · left
    have hseed : s.seed axes = (s, .error (.arity s.gatherings.length axes.length)) :=
      if_pos hcount
    rw [hseed] at h ⊢
    exact ⟨hcount, (Except.error.inj h).symm, rfl⟩

/-- The first axis of two that are refused brings a run that the record before them has brought. -/
theorem seed_refused_known_run :
    let dimensions := [FieldDimension.runtime.dimension, (FieldDimension.time .hour).dimension]
    let record : Field := ⟨1, 0, 28, 0, 98, ⟨0, 0⟩, 0, ⟨0, 0, 0⟩, .instant 0, none, none⟩
    let runs : Axis := ⟨"runtime", .runtime, [.runtime ⟨0, 0⟩]⟩
    ∃ s : Survey Field, start dimensions 0 = .ok s ∧
      let met := s.accumulate record
      met.Run ∧ (met.seed [runs, runs]).2 = .error (.mismatch .time .runtime) ∧
        (met.seed [runs, runs]).1 = met := by
  intro dimensions record runs
  have hstart : start dimensions 0 = .ok { gatherings := dimensions.map fun d => ⟨d, []⟩ } := rfl
  refine ⟨_, hstart, ?_⟩
  intro met
  have hrefused : (met.seed [runs, runs]).2 = .error (.mismatch .time .runtime) := rfl
  refine ⟨.accumulate record (.start hstart), hrefused, ?_⟩
  rcases seed_refused hrefused with
    ⟨hcount, -⟩ | ⟨before, g, a, rest, hpairs, hbefore, -, -, -, -, hsame⟩
  · exact absurd rfl hcount
  · apply hsame.mpr
    intro p hp
    have hpair : p ∈ met.gatherings.zip [runs, runs] := hpairs ▸ List.mem_append_left _ hp
    rcases List.mem_pair.mp hpair with rfl | rfl
    · exact fun v hv => hv
    · exact absurd (hbefore _ hp) (by decide)

/-- A run that is refused together with the next axis is on the axis of runs all the same. -/
theorem seed_refused_new_run :
    let dimensions := [FieldDimension.runtime.dimension, (FieldDimension.time .hour).dimension]
    let record : Field := ⟨1, 0, 28, 0, 98, ⟨0, 0⟩, 0, ⟨0, 0, 0⟩, .instant 0, none, none⟩
    let later : AxisValue := .runtime ⟨21600, 0⟩
    let runs : Axis := ⟨"runtime", .runtime, [later]⟩
    ∃ s : Survey Field, start dimensions 0 = .ok s ∧
      let met := s.accumulate record
      met.Run ∧ (met.seed [runs, runs]).2 = .error (.mismatch .time .runtime) ∧
        (∀ a ∈ (met.finish {}).axes, later ∉ a.values) ∧
        ∃ a ∈ ((met.seed [runs, runs]).1.finish {}).axes, later ∈ a.values := by
  intro dimensions record later runs
  have hstart : start dimensions 0 = .ok { gatherings := dimensions.map fun d => ⟨d, []⟩ } := rfl
  refine ⟨_, hstart, .accumulate record (.start hstart), rfl, ?_, _, List.mem_cons_self, ?_⟩
  · decide +kernel
  · exact Dimension.mem_sort.mpr (Gathering.mem_foldl_add.mpr (.inr (List.mem_singleton_self later)))

end Survey

end GribCatalog
