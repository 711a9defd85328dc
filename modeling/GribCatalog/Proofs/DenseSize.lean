import GribCatalog.Proofs.Dense
import Mathlib.Data.List.TakeWhile

/-! Sizes of dense arrays. Sizes are multiplied from the left and the product is given up as soon as
it exceeds a word, while an empty axis makes all products after it zero. So the axes before the
first empty one decide whether there is a size, and where an axis is empty their order does. -/

namespace GribCatalog

namespace Space

/-- The sizes before the first that is zero. -/
def leading (sizes : List Nat) : List Nat :=
  sizes.takeWhile (· ≠ 0)

theorem leading_zero (sizes : List Nat) : leading (0 :: sizes) = [] := rfl

theorem leading_cons {size : Nat} (h : size ≠ 0) (sizes : List Nat) :
    leading (size :: sizes) = size :: leading sizes :=
  List.takeWhile_cons_of_pos (by simpa using h)

theorem leading_eq_self {sizes : List Nat} (h : 0 ∉ sizes) : leading sizes = sizes :=
  List.takeWhile_eq_self_iff.mpr fun size hsize => by
    simpa using ne_of_mem_of_not_mem hsize h

theorem leading_append {sizes : List Nat} (h : 0 ∉ sizes) (more : List Nat) :
    leading (sizes ++ more) = sizes ++ leading more :=
  List.takeWhile_append_of_pos fun size hsize => by
    simpa using ne_of_mem_of_not_mem hsize h

theorem prod_leading_pos (sizes : List Nat) : 0 < (leading sizes).prod :=
  Nat.pos_of_ne_zero (List.prod_ne_zero fun h => by simpa using List.mem_takeWhile_imp h)

/-- The leading sizes are among those that are not zero. -/
theorem prod_leading_le (sizes : List Nat) :
    (leading sizes).prod ≤ (sizes.filter (· ≠ 0)).prod := by
  induction sizes with
  | nil => exact Nat.le_refl _
  | cons size sizes ih =>
    by_cases hzero : size = 0
    · subst hzero
      exact Nat.pos_of_ne_zero (List.prod_ne_zero (by simp))
    · rw [leading_cons hzero, List.filter_cons_of_pos (by simpa using hzero), List.prod_cons,
        List.prod_cons]
      exact Nat.mul_le_mul_left size ih

/-- Multiplying on from a word. No product exceeds a word unless the one before the first zero
does. -/
theorem foldlM_product {m : Nat} (hm : m < wordLimit) (sizes : List Nat) :
    sizes.foldlM (fun n size => if n * size < wordLimit then some (n * size) else none) m =
      if m * (leading sizes).prod < wordLimit then some (m * sizes.prod) else none := by
  induction sizes generalizing m with
  | nil => simp [leading, hm]
  | cons size sizes ih =>
    rw [List.foldlM_cons]
    by_cases hzero : size = 0
    · subst hzero
      have hword : 0 < wordLimit := Nat.zero_lt_of_lt hm
      simp [leading_zero, hm, hword, ih]
    · rw [leading_cons hzero, List.prod_cons, List.prod_cons, ← Nat.mul_assoc, ← Nat.mul_assoc]
      by_cases hfits : m * size < wordLimit
      · rw [if_pos hfits]
        exact ih hfits
      · have hover := Nat.le_mul_of_pos_right (m * size) (prod_leading_pos sizes)
        rw [if_neg hfits, if_neg (by omega)]
        rfl

theorem denseSize?_eq (s : Space) :
    s.denseSize? = if (leading s.shape).prod < wordLimit then some s.shape.prod else none := by
  have h := foldlM_product (m := 1) (by decide) s.shape
  rwa [Nat.one_mul, Nat.one_mul] at h

theorem denseSize?_eq_some_iff {s : Space} {n : Nat} :
    s.denseSize? = some n ↔ n = s.shape.prod ∧ (leading s.shape).prod < wordLimit := by
  rw [denseSize?_eq, Option.ite_none_right_eq_some, Option.some.injEq, and_comm, eq_comm]

theorem denseSize?_eq_none_iff {s : Space} :
    s.denseSize? = none ↔ wordLimit ≤ (leading s.shape).prod := by
  rw [denseSize?_eq]
  split <;> simp <;> omega

/-! ### Axes in another order -/

/-- A space with its empty axes behind all others. -/
def emptyLast (s : Space) : Space :=
  { s with axes := s.axes.filter (fun a => a.size ≠ 0) ++ s.axes.filter fun a => a.size = 0 }

/-- A space with its empty axes before all others. -/
def emptyFirst (s : Space) : Space :=
  { s with axes := s.axes.filter (fun a => a.size = 0) ++ s.axes.filter fun a => a.size ≠ 0 }

theorem axes_emptyFirst_perm (s : Space) : s.emptyFirst.axes.Perm s.axes := by
  have h := List.filter_append_perm (fun a : Axis => decide (a.size = 0)) s.axes
  simpa [emptyFirst] using h

theorem axes_emptyLast_perm (s : Space) : s.emptyLast.axes.Perm s.axes :=
  List.perm_append_comm.trans s.axes_emptyFirst_perm

theorem sizes_empty (axes : List Axis) :
    (axes.filter fun a => a.size = 0).map Axis.size =
      List.replicate (axes.filter fun a => a.size = 0).length 0 :=
  List.map_eq_replicate_iff.mpr fun _ ha => of_decide_eq_true (List.mem_filter.mp ha).2

theorem leading_emptyFirst {s : Space} (h : 0 ∈ s.shape) : leading s.emptyFirst.shape = [] := by
  obtain ⟨a, ha, hsize⟩ := List.mem_map.mp h
  have hmem : a ∈ s.axes.filter fun a => a.size = 0 :=
    List.mem_filter.mpr ⟨ha, decide_eq_true hsize⟩
  rw [shape, emptyFirst, List.map_append, sizes_empty]
  obtain ⟨k, hk⟩ := Nat.exists_eq_succ_of_ne_zero (Nat.ne_of_gt (List.length_pos_of_mem hmem))
  rw [hk, List.replicate_succ, List.cons_append, leading_zero]

theorem leading_emptyLast (s : Space) : leading s.emptyLast.shape = s.shape.filter (· ≠ 0) := by
  have hshape : (s.axes.filter fun a => a.size ≠ 0).map Axis.size = s.shape.filter (· ≠ 0) := by
    rw [shape, List.filter_map]
    rfl
  have hzeros (k : Nat) : leading (List.replicate k 0) = [] := by cases k <;> rfl
  rw [shape, emptyLast, List.map_append, sizes_empty, hshape, leading_append (by simp), hzeros,
    List.append_nil]

/-- In no order of its axes a space has another size, unless one of them is empty and the others
exceed a word together. -/
theorem denseSize?_perm_iff (s : Space) :
    (∀ t : Space, t.axes.Perm s.axes → t.denseSize? = s.denseSize?) ↔
      0 ∉ s.shape ∨ (s.shape.filter (· ≠ 0)).prod < wordLimit := by
  constructor
  · intro same
    by_cases hzero : 0 ∈ s.shape
    · right
      have hfirst : s.emptyFirst.denseSize? ≠ none := by
        rw [ne_eq, denseSize?_eq_none_iff, leading_emptyFirst hzero]
        decide
      have hlast : s.emptyLast.denseSize? ≠ none := by
        rwa [same _ s.axes_emptyLast_perm, ← same _ s.axes_emptyFirst_perm]
      rwa [ne_eq, denseSize?_eq_none_iff, leading_emptyLast, Nat.not_le] at hlast
    · exact .inl hzero
  · intro h t perm
    have hshape : t.shape.Perm s.shape := perm.map Axis.size
    rw [denseSize?_eq, denseSize?_eq, hshape.prod_eq]
    rcases h with hzero | hfits
    · have hzero' : 0 ∉ t.shape := fun hmem => hzero (hshape.mem_iff.mp hmem)
      rw [leading_eq_self hzero, leading_eq_self hzero', hshape.prod_eq]
    · have hs := prod_leading_le s.shape
      have ht := prod_leading_le t.shape
      rw [(hshape.filter _).prod_eq] at ht
      rw [if_pos (by omega), if_pos (by omega)]

/-- The dense size is the product of the sizes unless those before the first empty axis exceed a
word together. So it is exact, and the same in every order, where no axis is empty. -/
theorem denseSize?_exact (s : Space) :
    (∀ n, s.denseSize? = some n ↔ n = s.shape.prod ∧ (leading s.shape).prod < wordLimit) ∧
    ((∀ n, s.denseSize? = some n ↔ n = s.shape.prod ∧ s.shape.prod < wordLimit) ↔
      0 ∉ s.shape ∨ (leading s.shape).prod < wordLimit) ∧
    ((∀ t : Space, t.axes.Perm s.axes → t.denseSize? = s.denseSize?) ↔
      0 ∉ s.shape ∨ (s.shape.filter (· ≠ 0)).prod < wordLimit) ∧
    ∀ order sizes, DenseView.ofSpace s order = .error (.tooLarge sizes) ↔
      order.Perm (List.range s.rank) ∧ sizes = DenseView.arrange order s.shape ∧
        wordLimit ≤ (leading s.shape).prod := by
  refine ⟨fun n => denseSize?_eq_some_iff, ?exact, s.denseSize?_perm_iff, fun order sizes => ?views⟩
  case exact =>
    simp only [denseSize?_eq_some_iff]
    constructor
    · intro h
      by_cases hzero : 0 ∈ s.shape
      · exact .inr ((h 0).mpr ⟨(List.prod_eq_zero hzero).symm, by
          rw [List.prod_eq_zero hzero]
          decide⟩).2
      · exact .inl hzero
    · rintro (hzero | hfits) n
      · rw [leading_eq_self hzero]
      · refine and_congr_right fun _ => iff_of_true hfits ?_
        by_cases hzero : 0 ∈ s.shape
        · rw [List.prod_eq_zero hzero]
          decide
        · rwa [leading_eq_self hzero] at hfits
  case views =>
    by_cases perm : order.Perm (List.range s.rank)
    · rw [DenseView.ofSpace_of_perm perm, ← denseSize?_eq_none_iff]
      cases s.denseSize? <;> simp [perm, eq_comm]
    · rw [DenseView.ofSpace_of_not_perm perm]
      simp [perm]

/-- Thirty-two axes of four values and an empty one: there is a size when the empty axis comes first
and none when it comes last, though the array has no cells. -/
theorem denseSize?_empty_last :
    let full : Axis := ⟨"n", .custom "n", [.integer 0, .integer 1, .integer 2, .integer 3]⟩
    let empty : Axis := ⟨"n", .custom "n", []⟩
    let restored (axes : List Axis) : Except IndexFault Space :=
      restore ⟨1, .lastWins, axes, [], 0⟩
    ∃ s t, restored (List.replicate 32 full ++ [empty]) = .ok s ∧
      restored (empty :: List.replicate 32 full) = .ok t ∧ s.Reachable ∧ t.Reachable ∧
      t.axes.Perm s.axes ∧ s.shape.prod = 0 ∧ s.denseSize? = none ∧ t.denseSize? = some 0 ∧
      DenseView.ofSpace s (List.range 33) =
        .error (.tooLarge (List.replicate 32 4 ++ [0])) := by
  intro full empty restored
  let s := assemble (List.replicate 32 full ++ [empty]) [] .lastWins 0
  let t := assemble (empty :: List.replicate 32 full) [] .lastWins 0
  have last : restored (List.replicate 32 full ++ [empty]) = .ok s := by decide
  have first : restored (empty :: List.replicate 32 full) = .ok t := by decide
  have sizeless : s.denseSize? = none := by decide
  have shape : DenseView.arrange (List.range 33) s.shape = List.replicate 32 4 ++ [0] := by decide
  have viewed := DenseView.ofSpace_of_perm (s := s) (.refl (List.range 33))
  rw [sizeless, shape] at viewed
  exact ⟨s, t, last, first, .restore last, .restore first,
    (List.perm_append_singleton empty _).symm, by decide, sizeless, by decide, viewed⟩

end Space

end GribCatalog
