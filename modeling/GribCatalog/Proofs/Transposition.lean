import GribCatalog.Proofs.Dense

/-! Views in another order. An order of the axes is taken exactly when it is a permutation, and two
views of a space show the same under indices that have the same component on every axis. -/

namespace GribCatalog.DenseView

/-! ### Orders of axes -/

/-- Checks an order by marking its axes one after another. It stops at one that is out of range or
marked already. -/
def passes : List Bool → List Nat → Bool
  | _, [] => true
  | used, d :: order => used[d]? = some false && passes (used.set d true) order

theorem passes_iff {used : List Bool} {order : List Nat} :
    passes used order ↔ order.Nodup ∧ ∀ d ∈ order, used[d]? = some false := by
  induction order generalizing used with
  | nil => simp [passes]
  | cons d order ih =>
    rw [passes, Bool.and_eq_true, decide_eq_true_eq, ih, List.nodup_cons, List.forall_mem_cons]
    constructor
    · rintro ⟨hd, hnodup, hrest⟩
      have hlt := (List.getElem?_eq_some_iff.mp hd).1
      have hnew : d ∉ order := fun hmem => by simpa [hlt] using hrest d hmem
      refine ⟨⟨hnew, hnodup⟩, hd, fun e he => ?_⟩
      rw [← hrest e he, List.getElem?_set_ne (ne_of_mem_of_not_mem he hnew).symm]
    · rintro ⟨⟨hnew, hnodup⟩, hd, hrest⟩
      refine ⟨hd, hnodup, fun e he => ?_⟩
      rw [List.getElem?_set_ne (ne_of_mem_of_not_mem he hnew).symm]
      exact hrest e he

/-- As many axes as there are pass exactly when each of them is there once. -/
theorem perm_iff_passes {rank : Nat} {order : List Nat} :
    order.Perm (List.range rank) ↔
      order.length = rank ∧ passes (List.replicate rank false) order := by
  have hunused (d : Nat) : (List.replicate rank false)[d]? = some false ↔ d < rank := by
    simp [List.getElem?_replicate]
  simp only [passes_iff, hunused]
  constructor
  · intro perm
    exact ⟨by simpa using perm.length_eq, perm.nodup_iff.mpr List.nodup_range,
      fun d hd => List.mem_range.mp (perm.mem_iff.mp hd)⟩
  · rintro ⟨hlength, hnodup, hlt⟩
    have hsub : order.Subperm (List.range rank) :=
      List.subperm_of_subset hnodup fun d hd => List.mem_range.mpr (hlt d hd)
    exact hsub.perm_of_length_le (by simp [hlength])

/-! ### Tuples of the space -/

/-- The tuple of the space that an index stands for, written component by component. -/
def scatter (order index : List Nat) : List Nat :=
  (order.zip index).foldl (fun t p => t.set p.1 p.2) (List.replicate index.length 0)

theorem getElem?_foldl_set_of_not_mem {pairs : List (Nat × Nat)} {d : Nat}
    (h : d ∉ pairs.map Prod.fst) (t : List Nat) :
    (pairs.foldl (fun t p => t.set p.1 p.2) t)[d]? = t[d]? := by
  induction pairs generalizing t with
  | nil => rfl
  | cons p pairs ih =>
    rw [List.map_cons, List.mem_cons, not_or] at h
    rw [List.foldl_cons, ih h.2, List.getElem?_set_ne (Ne.symm h.1)]

theorem getElem?_foldl_set_of_mem {pairs : List (Nat × Nat)} (nodup : (pairs.map Prod.fst).Nodup)
    {d i : Nat} (h : (d, i) ∈ pairs) {t : List Nat} (hd : d < t.length) :
    (pairs.foldl (fun t p => t.set p.1 p.2) t)[d]? = some i := by
  induction pairs generalizing t with
  | nil => cases h
  | cons p pairs ih =>
    obtain ⟨hnew, hnodup⟩ := List.nodup_cons.mp nodup
    rcases List.mem_cons.mp h with rfl | hmem
    · rw [List.foldl_cons, getElem?_foldl_set_of_not_mem hnew, List.getElem?_set_self hd]
    · exact ih hnodup hmem (by rwa [List.length_set])

theorem length_foldl_set (pairs : List (Nat × Nat)) (t : List Nat) :
    (pairs.foldl (fun t p => t.set p.1 p.2) t).length = t.length := by
  induction pairs generalizing t with
  | nil => rfl
  | cons p pairs ih => rw [List.foldl_cons, ih, List.length_set]

theorem scatter_eq_undo {order index : List Nat} (perm : order.Perm (List.range index.length)) :
    scatter order index = undo order index := by
  have hlength : order.length = index.length := by simpa using perm.length_eq
  have hkeys : (order.zip index).map Prod.fst = order := List.map_fst_zip hlength.le
  have hnodup : order.Nodup := perm.nodup_iff.mpr List.nodup_range
  have hscatter : (scatter order index).length = index.length :=
    (length_foldl_set _ _).trans List.length_replicate
  refine List.ext_getElem (by simp [hscatter, undo, hlength]) fun d hd _ => ?_
  rw [hscatter] at hd
  have hk : order.idxOf d < order.length :=
    List.idxOf_lt_length_of_mem (perm.mem_iff.mpr (List.mem_range.mpr hd))
  have hpair : (d, index[order.idxOf d]) ∈ order.zip index :=
    List.mem_iff_getElem.mpr ⟨order.idxOf d, by simpa [hlength] using hk, by simp⟩
  have hwritten := getElem?_foldl_set_of_mem (hkeys.symm ▸ hnodup) hpair
    (t := List.replicate index.length 0) (by simpa using hd)
  refine (List.getElem?_eq_some_iff.mp hwritten).2.trans ?_
  simp [undo, hlength ▸ hk]

/-! ### The same on every axis -/

structure Transposes {α : Type} (p q : List Nat) (x y : List α) : Prop where
  length : y.length = q.length
  component : ∀ j k : Nat, j < q.length → q[j]? = p[k]? → y[j]? = x[k]?

theorem Transposes.map {α : Type} (p q : List Nat) (f : Nat → α) :
    Transposes p q (p.map f) (q.map f) where
  length := List.length_map f
  component j k _ h := by rw [List.getElem?_map, List.getElem?_map, h]

theorem Transposes.arrange (p q t : List Nat) :
    Transposes p q (arrange p t) (arrange q t) :=
  .map p q _

/-- Only one list has the same as another on every axis. -/
theorem Transposes.unique {α : Type} {p q : List Nat} {x y z : List α} (sub : ∀ d ∈ q, d ∈ p)
    (hy : Transposes p q x y) (hz : Transposes p q x z) : y = z := by
  refine List.ext_getElem? fun j => ?_
  by_cases hj : j < q.length
  · obtain ⟨k, hk⟩ := List.getElem?_of_mem (sub _ (List.getElem_mem hj))
    have hsame : q[j]? = p[k]? := (List.getElem?_eq_getElem hj).trans hk.symm
    rw [hy.component j k hj hsame, hz.component j k hj hsame]
  · rw [List.getElem?_eq_none (by rw [hy.length]; omega),
      List.getElem?_eq_none (by rw [hz.length]; omega)]

theorem Transposes.of_map_some {α : Type} {p q : List Nat} {x y : List α}
    (h : Transposes p q (x.map some) (y.map some)) : Transposes p q x y where
  length := by simpa using h.length
  component j k hj hjk := by
    have hsome := h.component j k hj hjk
    rw [List.getElem?_map, List.getElem?_map] at hsome
    exact Option.map_injective (Option.some_injective α) hsome

theorem map_some_axes_arranged {s : Space} {order : List Nat}
    (perm : order.Perm (List.range s.rank)) :
    (arranged s order).axes.map some = order.map fun d => s.axes[d]? := by
  refine List.map_filterMap_some_eq_filter_map_isSome.trans (List.filter_eq_self.mpr ?_)
  rintro _ ha
  obtain ⟨d, hd, rfl⟩ := List.mem_map.mp ha
  have hlt : d < s.axes.length := List.mem_range.mp (perm.mem_iff.mp hd)
  exact Option.isSome_iff_exists.mpr ⟨_, List.getElem?_eq_getElem hlt⟩

theorem get?_eq_none_iff {v : DenseView} {index : List Nat} :
    v.get? index = none ↔ index.length ≠ v.shape.length ∨
      ∃ k i n : Nat, index[k]? = some i ∧ v.shape[k]? = some n ∧ n ≤ i := by
  have hreach : (∃ p ∈ index.zip v.shape, p.2 ≤ p.1) ↔
      ∃ k i n : Nat, index[k]? = some i ∧ v.shape[k]? = some n ∧ n ≤ i := by
    simp only [List.mem_iff_getElem?, List.getElem?_zip_eq_some, Prod.exists]
    grind
  rw [← hreach, get?]
  simp only [ite_eq_right_iff, reduceCtorEq, imp_false, Bool.and_eq_true, decide_eq_true_eq,
    List.all_eq_true, not_and_or, not_forall, not_lt, exists_prop, ne_eq]

structure Transposed (s : Space) (p q : List Nat) (v w : DenseView) : Prop where
  ofSpace : Transposes (List.range s.rank) p s.shape v.shape ∧
    Transposes (List.range s.rank) p s.axes v.axes
  shape : Transposes p q v.shape w.shape
  axes : Transposes p q v.axes w.axes
  inside : ∀ x, List.Forall₂ (· < ·) x v.shape → ∃ y,
    Transposes p q x y ∧ (∀ y', Transposes p q x y' → y' = y) ∧
    List.Forall₂ (· < ·) y w.shape ∧
    ∃ t, Transposes p (List.range s.rank) x t ∧ t = scatter p x ∧
      v.get? x = some (s.entryAt? t) ∧ w.get? y = some (s.entryAt? t)
  outside : ∀ x, v.get? x = none ↔ x.length ≠ v.shape.length ∨
    ∃ k i n : Nat, x[k]? = some i ∧ v.shape[k]? = some n ∧ n ≤ i

section Orders

variable {s : Space} {p q : List Nat}

theorem ofSpace_of_fits {n : Nat} (fits : s.denseSize? = some n)
    (hp : p.Perm (List.range s.rank)) : ofSpace s p = .ok (arranged s p) := by
  rw [ofSpace_of_perm hp, fits]

theorem arrange_of_length {t : List Nat} {rank : Nat} (h : t.length = rank) :
    arrange (List.range rank) t = t :=
  h ▸ arrange_range t

theorem transposes_shape (s : Space) (p : List Nat) :
    Transposes (List.range s.rank) p s.shape (arranged s p).shape := by
  have hshape : s.shape.length = s.rank := List.length_map _
  have h := Transposes.arrange (List.range s.rank) p s.shape
  rwa [arrange_of_length hshape] at h

theorem transposes_axes (hp : p.Perm (List.range s.rank)) :
    Transposes (List.range s.rank) p s.axes (arranged s p).axes := by
  have haxes : s.axes.map some = (List.range s.rank).map fun d => s.axes[d]? :=
    List.ext_getElem (by simp [Space.rank]) fun d hd _ => by simp
  refine .of_map_some ?_
  rw [haxes, map_some_axes_arranged hp]
  exact .map _ p _

theorem transposed_arranged (hp : p.Perm (List.range s.rank)) (hq : q.Perm (List.range s.rank)) :
    Transposed s p q (arranged s p) (arranged s q) := by
  refine ⟨⟨transposes_shape s p, transposes_axes hp⟩, .map p q _, .of_map_some ?axes,
    fun x hx => ?inside, fun x => get?_eq_none_iff⟩
  case axes =>
    rw [map_some_axes_arranged hp, map_some_axes_arranged hq]
    exact .map p q _
  case inside =>
    have hmem : x ∈ tuples (arrange p s.shape) := mem_tuples_iff.mpr hx
    have hlength := length_of_mem_tuples hp hmem
    have hundo : (undo p x).length = s.rank := length_undo hp x
    have harrange : arrange p (undo p x) = x := arrange_undo (hlength ▸ hp)
    have hy : List.Forall₂ (· < ·) (arrange q (undo p x)) (arrange q s.shape) := by
      have hshape : (undo p x).length = s.shape.length := hundo.trans (List.length_map _).symm
      rw [forall₂_arrange_iff (hundo ▸ hq) hshape, ← forall₂_arrange_iff (hundo ▸ hp) hshape,
        harrange]
      exact hx
    have hxy := Transposes.arrange p q (undo p x)
    have hxt := Transposes.arrange p (List.range s.rank) (undo p x)
    rw [harrange] at hxy
    rw [harrange, arrange_of_length hundo] at hxt
    refine ⟨arrange q (undo p x), hxy, fun y' hy' => hy'.unique ?_ hxy, hy, undo p x, hxt,
      (scatter_eq_undo (hlength ▸ hp)).symm, get?_arranged hmem, ?_⟩
    · exact fun d hd => hp.mem_iff.mpr (hq.mem_iff.mp hd)
    · rw [get?_arranged (mem_tuples_iff.mpr hy), undo_arrange (hundo ▸ hq)]

end Orders

/-- A space with a dense size has a view for every permutation of its axes and for nothing else.
All of them show the same under indices that have the same component on every axis. -/
theorem ofSpace_transposed {s : Space} {n : Nat} (fits : s.denseSize? = some n) :
    (∀ order, (∃ v, ofSpace s order = .ok v) ↔ order.Perm (List.range s.rank)) ∧
    (∀ order : List Nat, order.Perm (List.range s.rank) ↔
      order.length = s.rank ∧ passes (List.replicate s.rank false) order) ∧
    ∀ p q v w, ofSpace s p = .ok v → ofSpace s q = .ok w → Transposed s p q v w := by
  refine ⟨fun order => ⟨?_, fun perm => ⟨_, ofSpace_of_fits fits perm⟩⟩,
    fun order => perm_iff_passes, fun p q v w hv hw => ?_⟩
  · rintro ⟨v, hv⟩
    exact (ofSpace_eq_ok hv).1
  · obtain ⟨hp, rfl⟩ := ofSpace_eq_ok hv
    obtain ⟨hq, rfl⟩ := ofSpace_eq_ok hw
    exact transposed_arranged hp hq

/-- Three axes of two, three and four values in the two orders that turn all of them around, where
an order and its inverse are not the same. -/
theorem ofSpace_transposed_cycle :
    let axis (values : List AxisValue) : Axis := ⟨"n", .custom "n", values⟩
    let x : Snapshot :=
      ⟨1, .lastWins, [axis [.integer 0, .integer 1], axis [.integer 0, .integer 1, .integer 2],
        axis [.integer 0, .integer 1, .integer 2, .integer 3]],
        [⟨0, ⟨0, 0, 28, 0⟩, [0, 0, 0]⟩, ⟨1, ⟨0, 28, 28, 0⟩, [1, 2, 3]⟩], 2⟩
    ∃ s v w, Space.restore x = .ok s ∧ s.denseSize? = some 24 ∧ ofSpace s [2, 0, 1] = .ok v ∧
      ofSpace s [1, 2, 0] = .ok w ∧ v.shape = [4, 2, 3] ∧ w.shape = [3, 4, 2] ∧
      (v.get? [3, 1, 2]).map (·.map Entry.position) = some (some 1) ∧
      w.get? [2, 3, 1] = v.get? [3, 1, 2] ∧ v.get? [2, 3, 1] = none ∧
      Transposed s [2, 0, 1] [1, 2, 0] v w := by
  intro axis x
  let s := Space.assemble x.axes x.entries .lastWins 2
  have restored : Space.restore x = .ok s := by decide
  have fits : s.denseSize? = some 24 := by decide
  have first := ofSpace_of_fits fits (show [2, 0, 1].Perm (List.range 3) by decide)
  have second := ofSpace_of_fits fits (show [1, 2, 0].Perm (List.range 3) by decide)
  exact ⟨s, _, _, restored, fits, first, second, by decide, by decide, by decide, by decide,
    by decide, (ofSpace_transposed fits).2.2 _ _ _ _ first second⟩

end GribCatalog.DenseView
