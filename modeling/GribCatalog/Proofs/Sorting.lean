import Mathlib.Data.List.Sort

/-! Sorting by a number is determined by its stability: the sorted list keeps, for
every number, the items of that number in the order they came in. A table read
column by column is thereby sorted into itself read row by row. -/

namespace GribCatalog

section Key

variable {γ : Type} {key : γ → Nat}

theorem mem_iff_of_filter_key {l t : List γ}
    (same : ∀ k, l.filter (fun a => key a = k) = t.filter (fun a => key a = k)) (x : γ) :
    x ∈ l ↔ x ∈ t := by
  have := congrArg (x ∈ ·) (same (key x))
  simpa using this

theorem eq_of_filter_key {l t : List γ} (hl : l.Pairwise fun a b => key a ≤ key b)
    (ht : t.Pairwise fun a b => key a ≤ key b)
    (same : ∀ k, l.filter (fun a => key a = k) = t.filter (fun a => key a = k)) : l = t := by
  induction l generalizing t with
  | nil =>
    cases t with
    | nil => rfl
    | cons b t =>
      exact absurd ((mem_iff_of_filter_key same b).mpr List.mem_cons_self) List.not_mem_nil
  | cons a l ih =>
    cases t with
    | nil => exact absurd ((mem_iff_of_filter_key same a).mp List.mem_cons_self) List.not_mem_nil
    | cons b t =>
      obtain ⟨hal, hltail⟩ := List.pairwise_cons.mp hl
      obtain ⟨hbt, httail⟩ := List.pairwise_cons.mp ht
      have hab : key a ≤ key b := by
        rcases List.mem_cons.mp ((mem_iff_of_filter_key same b).mpr List.mem_cons_self) with h | h
        · rw [h]
        · exact hal b h
      have hba : key b ≤ key a := by
        rcases List.mem_cons.mp ((mem_iff_of_filter_key same a).mp List.mem_cons_self) with h | h
        · rw [h]
        · exact hbt a h
      have hkey : key b = key a := Nat.le_antisymm hba hab
      have hhead := same (key a)
      simp only [List.filter_cons, hkey, decide_true, if_true, List.cons.injEq] at hhead
      obtain ⟨rfl, hrest⟩ := hhead
      refine congrArg _ (ih hltail httail fun k => ?_)
      by_cases hk : key a = k
      · exact hk ▸ hrest
      · simpa [List.filter_cons, hk] using same k

theorem pairwise_mergeSort_key (l : List γ) :
    (l.mergeSort fun a b => key a ≤ key b).Pairwise fun a b => key a ≤ key b := by
  have := @List.pairwise_mergeSort γ (fun a b => decide (key a ≤ key b))
    (fun a b c => by simp only [decide_eq_true_eq]; omega)
    (fun a b => by simp only [Bool.or_eq_true, decide_eq_true_eq]; omega) l
  simpa using this

theorem filter_mergeSort_key (l : List γ) (k : Nat) :
    (l.mergeSort fun a b => key a ≤ key b).filter (fun a => key a = k) =
      l.filter fun a => key a = k := by
  have hkept : (l.filter fun a => key a = k).Pairwise fun a b => decide (key a ≤ key b) = true := by
    refine List.pairwise_of_forall_mem_list fun a ha b hb => ?_
    simp only [List.mem_filter, decide_eq_true_eq] at ha hb ⊢
    omega
  have hsub := List.sublist_mergeSort (fun a b c => by simp only [decide_eq_true_eq]; omega)
    (fun a b => by simp only [Bool.or_eq_true, decide_eq_true_eq]; omega) hkept List.filter_sublist
  have hfilter := hsub.filter fun a => decide (key a = k)
  simp only [List.filter_filter, Bool.and_self] at hfilter
  exact (hfilter.eq_of_length ((List.mergeSort_perm l _).filter _).length_eq.symm).symm

theorem mergeSort_eq_of_filter {l t : List γ} (sorted : t.Pairwise fun a b => key a ≤ key b)
    (same : ∀ k, t.filter (fun a => key a = k) = l.filter (fun a => key a = k)) :
    (l.mergeSort fun a b => key a ≤ key b) = t :=
  eq_of_filter_key (pairwise_mergeSort_key l) sorted fun k =>
    (filter_mergeSort_key l k).trans (same k).symm

end Key

section Table

variable {δ β γ : Type} {cell : δ → β → Option γ} {key : γ → Nat} {row : β → Nat}

theorem filter_column (hcell : ∀ d b c, cell d b = some c → key c = row b) (d : δ) (bs : List β)
    (k : Nat) :
    (bs.filterMap (cell d)).filter (fun c => key c = k) =
      (bs.filter fun b => row b = k).filterMap (cell d) := by
  rw [List.filter_filterMap, List.filterMap_filter]
  refine List.filterMap_congr fun b _ => ?_
  cases hc : cell d b with
  | none => simp
  | some c => simp [Option.filter, hcell d b c hc]

theorem key_of_mem_row (hcell : ∀ d b c, cell d b = some c → key c = row b) {ds : List δ} {b : β}
    {c : γ} (hc : c ∈ ds.filterMap fun d => cell d b) : key c = row b := by
  obtain ⟨d, -, hd⟩ := List.mem_filterMap.mp hc
  exact hcell d b c hd

theorem filter_row (hcell : ∀ d b c, cell d b = some c → key c = row b) (ds : List δ) (b : β)
    (k : Nat) :
    (ds.filterMap fun d => cell d b).filter (fun c => key c = k) =
      if row b = k then ds.filterMap fun d => cell d b else [] := by
  split
  · next hb =>
    exact List.filter_eq_self.mpr fun c hc => by simp [key_of_mem_row hcell hc, hb]
  · next hb =>
    exact List.filter_eq_nil_iff.mpr fun c hc => by simp [key_of_mem_row hcell hc, hb]

theorem filter_table (hcell : ∀ d b c, cell d b = some c → key c = row b) (ds : List δ)
    {bs : List β} (ascending : bs.Pairwise fun a b => row a < row b) (k : Nat) :
    (bs.flatMap fun b => ds.filterMap fun d => cell d b).filter (fun c => key c = k) =
      (ds.flatMap fun d => bs.filterMap (cell d)).filter fun c => key c = k := by
  simp only [List.filter_flatMap, filter_column hcell, filter_row hcell]
  induction bs with
  | nil => simp
  | cons b bs ih =>
    obtain ⟨hb, hbs⟩ := List.pairwise_cons.mp ascending
    by_cases hk : row b = k
    · -- no row after this one has its number
      have hnone : bs.filter (fun b => row b = k) = [] :=
        List.filter_eq_nil_iff.mpr fun b' hb' => by
          have := hb b' hb'
          simp only [decide_eq_true_eq]
          omega
      have hrest := ih hbs
      rw [hnone] at hrest
      rw [List.flatMap_cons, if_pos hk, hrest]
      have hcolumn (d : δ) : [b].filterMap (cell d) = (cell d b).toList := by
        cases hc : cell d b <;> simp [hc]
      have hempty : (ds.flatMap fun _ => ([] : List γ)) = [] :=
        List.flatMap_eq_nil_iff.mpr fun _ _ => rfl
      simp only [List.filter_cons, hk, decide_true, if_true, hnone, hcolumn, List.filterMap_nil,
        hempty, List.append_nil]
      exact List.filterMap_eq_flatMap_toList _ _
    · rw [List.flatMap_cons, if_neg hk, List.nil_append, ih hbs]
      simp only [List.filter_cons, hk, decide_false, Bool.false_eq_true, if_false]

/-- Sorting the columns of a table by the number of the row gives its rows. -/
theorem mergeSort_columns (cell : δ → β → Option γ)
    (hcell : ∀ d b c, cell d b = some c → key c = row b) (ds : List δ) {bs : List β}
    (ascending : bs.Pairwise fun a b => row a < row b) :
    ((ds.flatMap fun d => bs.filterMap (cell d)).mergeSort fun a b => key a ≤ key b) =
      bs.flatMap fun b => ds.filterMap fun d => cell d b := by
  refine mergeSort_eq_of_filter ?_ fun k => filter_table hcell ds ascending k
  refine List.pairwise_flatMap.mpr ⟨fun b _ => ?_, ascending.imp fun hab x hx y hy => ?_⟩
  · refine List.pairwise_of_forall_mem_list fun x hx y hy => ?_
    rw [key_of_mem_row hcell hx, key_of_mem_row hcell hy]
  · rw [key_of_mem_row hcell hx, key_of_mem_row hcell hy]
    exact Nat.le_of_lt hab

end Table

end GribCatalog
