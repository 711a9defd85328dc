import GribCatalog.Space.Collector
import Mathlib.Data.List.Sort

/-! Axes and how they come about. The index of a value is a place that holds it;
an axis gathered from records holds what its dimension has for them, each value
once, and depends on the set of these values only. -/

namespace GribCatalog

/-- A level has nothing to be rounded or dropped when it is made anew. -/
theorem Level.mk?_value (l : Level) : Level.mk? l.kind l.value = some l := by
  rw [Level.mk?, dif_pos l.isNumber]
  congr 2
  exact l.zeroIsPositive

namespace Axis

theorem getElem?_of_lastIndex? {v : AxisValue} {ws : List AxisValue} {i : Nat}
    (h : lastIndex? v ws = some i) : ws[i]? = some v := by
  induction ws generalizing i with
  | nil => cases h
  | cons w ws ih =>
    rw [lastIndex?] at h
    split at h
    · next j hj =>
      cases h
      exact ih hj
    · split at h
      · next hw =>
        cases h
        exact congrArg some hw
      · cases h

theorem lt_size_of_index? {a : Axis} {v : AxisValue} {i : Nat} (h : a.index? v = some i) :
    i < a.size :=
  (List.getElem?_eq_some_iff.mp (getElem?_of_lastIndex? h)).1

theorem lastIndex?_eq_none_iff {v : AxisValue} {ws : List AxisValue} :
    lastIndex? v ws = none ↔ v ∉ ws := by
  induction ws with
  | nil => simp [lastIndex?]
  | cons w ws ih =>
    rw [lastIndex?, List.mem_cons]
    split
    · next j hj =>
      have : v ∈ ws := by
        by_contra hv
        rw [ih.mpr hv] at hj
        cases hj
      simp [this]
    · next hnone =>
      have hv := ih.mp hnone
      split
      · next hw => simp [hw]
      · next hw => simp [hv, Ne.symm hw]

theorem exists_index {a : Axis} {v : AxisValue} (h : v ∈ a.values) : ∃ i, a.index? v = some i := by
  cases hi : a.index? v with
  | some i => exact ⟨i, rfl⟩
  | none => exact absurd h (lastIndex?_eq_none_iff.mp hi)

theorem index?_eq_some_iff {a : Axis} (nodup : a.values.Nodup) {v : AxisValue} {i : Nat} :
    a.index? v = some i ↔ a.values[i]? = some v := by
  constructor
  · exact getElem?_of_lastIndex?
  · intro h
    obtain ⟨j, hj⟩ := exists_index (List.mem_of_getElem? h)
    have hv := getElem?_of_lastIndex? hj
    have hlen := (List.getElem?_eq_some_iff.mp hv).1
    rw [hj, (List.getElem?_inj hlen nodup).mp (hv.trans h.symm)]

theorem distinct_of_nodup {vs : List AxisValue} (nodup : vs.Nodup) : distinct vs = vs := by
  induction vs with
  | nil => rfl
  | cons v vs ih =>
    obtain ⟨hv, hvs⟩ := List.nodup_cons.mp nodup
    have : distinct (v :: vs) = if v ∈ distinct vs then distinct vs else v :: distinct vs := rfl
    rw [this, ih hvs, if_neg hv]

end Axis

namespace Dimension

variable {ρ : Type} {d : Dimension ρ}

structure Ordered (d : Dimension ρ) : Prop where
  trans : Std.TransCmp d.order
  lawful : Std.LawfulEqCmp d.order

theorem mem_sort {values : List AxisValue} {v : AxisValue} : v ∈ d.sort values ↔ v ∈ values :=
  List.mem_mergeSort

theorem nodup_sort {values : List AxisValue} (nodup : values.Nodup) : (d.sort values).Nodup :=
  (List.mergeSort_perm values d.le).nodup_iff.mpr nodup

namespace Ordered

theorem pairwise_sort (h : d.Ordered) {values : List AxisValue} (nodup : values.Nodup) :
    (d.sort values).Pairwise fun v w => d.order v w = .lt := by
  have := h.trans
  have := h.lawful
  have hsorted : (d.sort values).Pairwise fun v w => (d.order v w).isLE = true :=
    List.pairwise_mergeSort (fun _ _ _ => Std.TransCmp.isLE_trans)
      (fun v w => by
        have : d.order v w = (d.order w v).swap := Std.OrientedCmp.eq_swap
        rw [this]
        cases d.order w v <;> rfl) values
  refine hsorted.imp₂ (fun v w hle hne => ?_) (nodup_sort nodup)
  cases hvw : d.order v w with
  | lt => rfl
  | eq => exact absurd (Std.LawfulEqCmp.eq_of_compare hvw) hne
  | gt => rw [hvw] at hle; cases hle

theorem sort_congr (h : d.Ordered) {vs ws : List AxisValue} (hvs : vs.Nodup) (hws : ws.Nodup)
    (same : ∀ v, v ∈ vs ↔ v ∈ ws) : d.sort vs = d.sort ws := by
  have := h.trans
  have perm : vs.Perm ws := (List.perm_ext_iff_of_nodup hvs hws).mpr same
  exact List.Perm.eq_of_pairwise
    (fun v w _ _ hvw hwv => absurd hwv (Std.OrientedCmp.not_lt_of_lt (hvw : d.order v w = .lt)))
    (h.pairwise_sort hvs) (h.pairwise_sort hws)
    ((List.mergeSort_perm vs d.le).trans (perm.trans (List.mergeSort_perm ws d.le).symm))

end Ordered

end Dimension

namespace Gathering

variable {ρ : Type} {g : Gathering ρ}

@[simp] theorem offer_dimension (g : Gathering ρ) (record : ρ) :
    (g.offer record).dimension = g.dimension := by
  unfold offer
  split <;> rfl

theorem mem_offer {record : ρ} {v : AxisValue} :
    v ∈ (g.offer record).values ↔ v ∈ g.values ∨ g.dimension.extract record = .ok v := by
  unfold offer
  split
  · next w hw => simp [add, List.mem_insert_iff, hw, or_comm, eq_comm]
  · next e he => simp [he]

theorem nodup_offer (nodup : g.values.Nodup) (record : ρ) : (g.offer record).values.Nodup := by
  unfold offer
  split
  · exact nodup.insert
  · exact nodup

@[simp] theorem foldl_offer_dimension (records : List ρ) (g : Gathering ρ) :
    (records.foldl offer g).dimension = g.dimension := by
  induction records generalizing g with
  | nil => rfl
  | cons r records ih => rw [List.foldl_cons, ih, offer_dimension]

theorem mem_foldl_offer {records : List ρ} {g : Gathering ρ} {v : AxisValue} :
    v ∈ (records.foldl offer g).values ↔
      v ∈ g.values ∨ ∃ r ∈ records, g.dimension.extract r = .ok v := by
  induction records generalizing g with
  | nil => simp
  | cons r records ih =>
    rw [List.foldl_cons, ih, mem_offer, offer_dimension]
    simp only [List.mem_cons, exists_eq_or_imp, or_assoc]

theorem nodup_foldl_offer (nodup : g.values.Nodup) (records : List ρ) :
    (records.foldl offer g).values.Nodup := by
  induction records generalizing g with
  | nil => exact nodup
  | cons r records ih => exact ih (nodup_offer nodup r)

@[simp] theorem foldl_add_dimension (vs : List AxisValue) (g : Gathering ρ) :
    (vs.foldl add g).dimension = g.dimension := by
  induction vs generalizing g with
  | nil => rfl
  | cons v vs ih => rw [List.foldl_cons, ih, add]

theorem mem_foldl_add {vs : List AxisValue} {g : Gathering ρ} {v : AxisValue} :
    v ∈ (vs.foldl add g).values ↔ v ∈ g.values ∨ v ∈ vs := by
  induction vs generalizing g with
  | nil => simp
  | cons w vs ih =>
    rw [List.foldl_cons, ih, add, List.mem_cons]
    simp only [List.mem_insert_iff]
    tauto

theorem nodup_foldl_add (nodup : g.values.Nodup) (vs : List AxisValue) :
    (vs.foldl add g).values.Nodup := by
  induction vs generalizing g with
  | nil => exact nodup
  | cons v vs ih => exact ih (g := g.add v) nodup.insert

end Gathering

def Dimension.axisOf {ρ : Type} (d : Dimension ρ) (records : List ρ) : Axis :=
  (records.foldl Gathering.offer { dimension := d }).axis

namespace Dimension

variable {ρ : Type} {d : Dimension ρ} {records : List ρ}

@[simp] theorem axisOf_name : (d.axisOf records).name = d.name := by
  simp [axisOf, Gathering.axis]

@[simp] theorem axisOf_kind : (d.axisOf records).kind = d.kind := by
  simp [axisOf, Gathering.axis]

theorem axisOf_values : (d.axisOf records).values =
    d.sort (records.foldl Gathering.offer { dimension := d }).values := by
  simp [axisOf, Gathering.axis]

theorem mem_axisOf {v : AxisValue} :
    v ∈ (d.axisOf records).values ↔ ∃ r ∈ records, d.extract r = .ok v := by
  simp only [axisOf_values, mem_sort, Gathering.mem_foldl_offer, List.not_mem_nil, false_or]

theorem nodup_axisOf : (d.axisOf records).values.Nodup :=
  nodup_sort (Gathering.nodup_foldl_offer List.nodup_nil records)

theorem Ordered.pairwise_axisOf (h : d.Ordered) :
    (d.axisOf records).values.Pairwise fun v w => d.order v w = .lt := by
  rw [axisOf_values]
  exact h.pairwise_sort (Gathering.nodup_foldl_offer List.nodup_nil records)

/-- Axis of a dimension that has been gathered in any way. -/
theorem Ordered.axis_eq (h : d.Ordered) {g : Gathering ρ} (dimension : g.dimension = d)
    (nodup : g.values.Nodup)
    (same : ∀ v, v ∈ g.values ↔ ∃ r ∈ records, d.extract r = .ok v) :
    g.axis = d.axisOf records := by
  subst dimension
  unfold axisOf Gathering.axis
  rw [Gathering.foldl_offer_dimension]
  refine congrArg (Axis.mk _ _)
    (h.sort_congr nodup (Gathering.nodup_foldl_offer List.nodup_nil _) ?_)
  intro v
  rw [same, Gathering.mem_foldl_offer]
  simp

end Dimension

end GribCatalog
