import GribCatalog.Proofs.Invariant
import GribCatalog.Proofs.Lookup
import GribCatalog.Space.Dense
import Mathlib.Algebra.BigOperators.Ring.List

/-! Dense views. The indices of an array are the numbers below its size, written in the
mixed radix of its shape, and an odometer counts through them. An order of the axes pairs them
off with the tuples of the space, so the cells in use and the missing ones make up the array. -/

namespace GribCatalog

namespace Space

theorem prod_of_foldlM {sizes : List Nat} {m n : Nat}
    (h : sizes.foldlM (fun n size => if n * size < wordLimit then some (n * size) else none) m =
      some n) : n = m * sizes.prod := by
  induction sizes generalizing m with
  | nil => simpa using h.symm
  | cons size sizes ih =>
    rw [List.foldlM_cons] at h
    obtain ⟨k, hk, h⟩ := Option.bind_eq_some_iff.mp h
    split at hk
    · cases hk
      rw [ih h, List.prod_cons, Nat.mul_assoc]
    · cases hk

theorem product?_eq_some {sizes : List Nat} {n : Nat} (h : product? sizes = some n) :
    n = sizes.prod :=
  (prod_of_foldlM h).trans (Nat.one_mul _)

end Space

namespace DenseView

/-! ### Counting through a shape -/

/-- The digits of a number in the mixed radix of a shape, the last of them running fastest. -/
def digits : List Nat → Nat → List Nat
  | [], _ => []
  | n :: shape, k => k / shape.prod % n :: digits shape k

/-- One turn of an odometer: the digits after the turn, and whether the first of them carries. -/
def turn : List Nat → List Nat → List Nat × Bool
  | n :: shape, i :: index =>
    match turn shape index with
    | (rest, false) => (i :: rest, false)
    | (rest, true) => if i + 1 < n then ((i + 1) :: rest, false) else (0 :: rest, true)
  | _, _ => ([], true)

def first? (shape : List Nat) : Option (List Nat) :=
  if 0 ∈ shape then none else some (shape.map fun _ => 0)

def following? (shape index : List Nat) : Option (List Nat) :=
  match turn shape index with
  | (next, false) => some next
  | (_, true) => none

/-- The indices that an odometer shows from one on, for some turns at most. -/
def walk (shape : List Nat) : Nat → Option (List Nat) → List (List Nat)
  | turns + 1, some index => index :: walk shape turns (following? shape index)
  | _, _ => []

theorem digits_zero (shape : List Nat) : digits shape 0 = shape.map fun _ => 0 := by
  induction shape with
  | nil => rfl
  | cons n shape ih => simp [digits, ih]

/-- Digits repeat after the size of the shape. -/
theorem digits_add_mul (shape : List Nat) (i k : Nat) :
    digits shape (i * shape.prod + k) = digits shape k := by
  induction shape generalizing i with
  | nil => rfl
  | cons n shape ih =>
    have hmul : i * (n * shape.prod) + k = i * n * shape.prod + k := by rw [Nat.mul_assoc]
    rw [List.prod_cons, hmul, digits, digits, ih]
    congr 1
    rcases Nat.eq_zero_or_pos shape.prod with hzero | hpos
    · simp [hzero]
    · rw [Nat.add_comm, Nat.add_mul_div_right k _ hpos, Nat.add_mul_mod_self_right]

theorem digits_cons (shape : List Nat) {n i k : Nat} (hi : i < n) (hk : k < shape.prod) :
    digits (n :: shape) (i * shape.prod + k) = i :: digits shape k := by
  have hpos : 0 < shape.prod := Nat.zero_lt_of_lt hk
  rw [digits, digits_add_mul, Nat.add_comm, Nat.add_mul_div_right k i hpos, Nat.div_eq_of_lt hk,
    Nat.zero_add, Nat.mod_eq_of_lt hi]

theorem range_mul (n k : Nat) :
    List.range (n * k) = (List.range n).flatMap fun i => (List.range k).map (i * k + ·) := by
  induction n with
  | zero => simp
  | succ n ih => rw [Nat.succ_mul, List.range_add, ih, List.range_succ, List.flatMap_append,
      List.flatMap_singleton]

/-- The tuples below a shape are the numbers below its product, in digits. -/
theorem tuples_eq_map_digits (shape : List Nat) :
    tuples shape = (List.range shape.prod).map (digits shape) := by
  induction shape with
  | nil => rfl
  | cons n shape ih =>
    rw [tuples, ih, List.prod_cons, range_mul, List.map_flatMap]
    refine List.flatMap_congr fun i hi => ?_
    rw [List.map_map, List.map_map]
    exact List.map_congr_left fun k hk =>
      (digits_cons shape (List.mem_range.mp hi) (List.mem_range.mp hk)).symm

/-- A turn adds one, and the first digit carries when that fills the shape. -/
theorem turn_digits {shape : List Nat} (h : 0 < shape.prod) (k : Nat) :
    turn shape (digits shape k) = (digits shape (k + 1), decide (shape.prod ∣ k + 1)) := by
  induction shape with
  | nil => simp [turn, digits]
  | cons n shape ih =>
    rw [List.prod_cons] at h
    have hn : 0 < n := Nat.pos_of_mul_pos_right h
    have hpos : 0 < shape.prod := Nat.pos_of_mul_pos_left h
    rw [digits, turn, ih hpos, digits, List.prod_cons]
    by_cases hcarry : shape.prod ∣ k + 1
    · have hlast : n * shape.prod ∣ k + 1 ↔ n ∣ k / shape.prod + 1 := by
        rw [← Nat.succ_div_of_dvd hcarry, Nat.dvd_div_iff_mul_dvd hcarry, Nat.mul_comm]
      simp only [hcarry, hlast, decide_true, Nat.succ_div_of_dvd hcarry]
      split
      · next hlt =>
        have : (k / shape.prod + 1) % n = k / shape.prod % n + 1 := by
          rw [Nat.add_mod, Nat.mod_eq_of_lt (Nat.lt_of_le_of_lt (Nat.le_add_left 1 _) hlt),
            Nat.mod_eq_of_lt hlt]
        simp [this, Nat.dvd_iff_mod_eq_zero]
      · next hge =>
        have hmod := Nat.mod_lt (k / shape.prod) hn
        have : (k / shape.prod + 1) % n = 0 := by
          rw [← Nat.mod_add_mod, show k / shape.prod % n + 1 = n by omega, Nat.mod_self]
        simp [this, Nat.dvd_iff_mod_eq_zero]
    · have hnot : ¬ n * shape.prod ∣ k + 1 := fun hdvd =>
        hcarry (Nat.dvd_trans (Nat.dvd_mul_left _ n) hdvd)
      simp [hcarry, hnot, Nat.succ_div_of_not_dvd hcarry]

theorem following?_digits {shape : List Nat} {k : Nat} (h : k < shape.prod) :
    following? shape (digits shape k) =
      if k + 1 < shape.prod then some (digits shape (k + 1)) else none := by
  rw [following?, turn_digits (Nat.zero_lt_of_lt h)]
  by_cases hlt : k + 1 < shape.prod
  · simp [hlt, Nat.not_dvd_of_pos_of_lt (Nat.succ_pos k) hlt]
  · simp [show k + 1 = shape.prod by omega]

/-- From the digits of a number on, an odometer shows all numbers up to the size of the shape. -/
theorem walk_digits {shape : List Nat} {turns k : Nat} (hk : k < shape.prod)
    (hturns : shape.prod ≤ turns + k) :
    walk shape turns (some (digits shape k)) =
      (List.range' k (shape.prod - k)).map (digits shape) := by
  induction turns generalizing k with
  | zero => omega
  | succ turns ih =>
    obtain ⟨rest, hrest⟩ : ∃ rest, shape.prod - k = rest + 1 := ⟨shape.prod - k - 1, by omega⟩
    rw [walk, following?_digits hk, hrest, List.range'_succ, List.map_cons]
    congr 1
    split
    · next hlt =>
      rw [ih hlt (by omega)]
      congr 2
      omega
    · next hge =>
      obtain rfl : rest = 0 := by omega
      cases turns <;> rfl

/-- An odometer shows the tuples below its shape, and stops. -/
theorem walk_first? {shape : List Nat} {turns : Nat} (h : shape.prod ≤ turns) :
    walk shape turns (first? shape) = tuples shape := by
  rw [first?, tuples_eq_map_digits]
  split
  · next hzero =>
    rw [List.prod_eq_zero hzero]
    cases turns <;> rfl
  · next hzero =>
    have hpos : 0 < shape.prod := Nat.pos_of_ne_zero (List.prod_ne_zero hzero)
    rw [← digits_zero, walk_digits hpos h, Nat.sub_zero, List.range_eq_range']

theorem mem_tuples_iff {shape t : List Nat} :
    t ∈ tuples shape ↔ List.Forall₂ (· < ·) t shape := by
  induction shape generalizing t with
  | nil => simp [tuples]
  | cons n shape ih =>
    simp only [tuples, List.mem_flatMap, List.mem_range, List.mem_map, ih,
      List.forall₂_cons_right_iff]
    constructor
    · rintro ⟨i, hi, index, hindex, rfl⟩
      exact ⟨i, index, hi, hindex, rfl⟩
    · rintro ⟨i, index, hi, hindex, rfl⟩
      exact ⟨i, hi, index, hindex, rfl⟩

theorem nodup_tuples (shape : List Nat) : (tuples shape).Nodup := by
  induction shape with
  | nil => exact List.nodup_singleton []
  | cons n shape ih =>
    rw [tuples, List.nodup_flatMap]
    refine ⟨fun i _ => ih.map fun _ _ h => (List.cons.inj h).2, ?_⟩
    refine List.nodup_range.imp fun hne => ?_
    show List.Disjoint _ _
    rw [List.disjoint_left]
    intro t ht ht'
    obtain ⟨_, -, rfl⟩ := List.mem_map.mp ht
    obtain ⟨_, -, h⟩ := List.mem_map.mp ht'
    exact hne (List.cons.inj h).1.symm

/-! ### Axes in another order -/

def arrange (order t : List Nat) : List Nat :=
  order.map fun d => t.getD d 0

theorem perm_of_isPermutation {rank : Nat} {order : List Nat} (h : isPermutation rank order) :
    order.Perm (List.range rank) := by
  simp only [isPermutation, Bool.and_eq_true, decide_eq_true_eq, List.all_eq_true] at h
  obtain ⟨hlength, hall⟩ := h
  have hsub : (List.range rank).Subperm order := List.subperm_of_subset List.nodup_range hall
  exact (hsub.perm_of_length_le (by simp [hlength])).symm

theorem isPermutation_iff {rank : Nat} {order : List Nat} :
    isPermutation rank order ↔ order.Perm (List.range rank) := by
  refine ⟨perm_of_isPermutation, fun perm => ?_⟩
  simp only [isPermutation, Bool.and_eq_true, decide_eq_true_eq, List.all_eq_true]
  exact ⟨by simpa using perm.length_eq, fun d hd => perm.mem_iff.mpr hd⟩

theorem arrange_range (t : List Nat) : arrange (List.range t.length) t = t := by
  refine List.ext_getElem (by simp [arrange]) fun d _ hd => ?_
  simp [arrange, hd]

section Order

variable {order t index : List Nat}

theorem arrange_perm (perm : order.Perm (List.range t.length)) : (arrange order t).Perm t := by
  have h := perm.map fun d => t.getD d 0
  rwa [show (List.range t.length).map (fun d => t.getD d 0) = t from arrange_range t] at h

theorem arrange_undo (perm : order.Perm (List.range index.length)) :
    arrange order (undo order index) = index := by
  have hlength : order.length = index.length := by simpa using perm.length_eq
  have hnodup : order.Nodup := perm.nodup_iff.mpr List.nodup_range
  refine List.ext_getElem (by simp [arrange, hlength]) fun k hk hk' => ?_
  have hd : order[k] < order.length := by
    have := perm.mem_iff.mp (List.getElem_mem (hlength ▸ hk'))
    simpa [hlength] using this
  simp [arrange, undo, hd, hnodup.idxOf_getElem, hk']

theorem undo_arrange (perm : order.Perm (List.range t.length)) :
    undo order (arrange order t) = t := by
  have hlength : order.length = t.length := by simpa using perm.length_eq
  refine List.ext_getElem (by simp [undo, hlength]) fun d hd hd' => ?_
  have hmem : d ∈ order := perm.mem_iff.mpr (List.mem_range.mpr hd')
  simp [arrange, undo, List.idxOf_lt_length_of_mem hmem, hd']

/-- A tuple is in range as the view has it when it is in range as the space has it. -/
theorem forall₂_arrange_iff {shape : List Nat} (perm : order.Perm (List.range t.length))
    (hlength : t.length = shape.length) :
    List.Forall₂ (· < ·) (arrange order t) (arrange order shape) ↔
      List.Forall₂ (· < ·) t shape := by
  have hsame (order : List Nat) :
      List.Forall₂ (· < ·) (arrange order t) (arrange order shape) ↔
        ∀ d ∈ order, t.getD d 0 < shape.getD d 0 := by
    rw [arrange, arrange, List.forall₂_map_left_iff, List.forall₂_map_right_iff,
      List.forall₂_same]
  have hrange := hsame (List.range t.length)
  rw [arrange_range, hlength, arrange_range] at hrange
  rw [hsame, hrange]
  exact forall_congr' fun d => imp_congr_left (hlength ▸ perm.mem_iff)

end Order

/-! ### The view of a space -/

/-- A view is an array in row-major order. An odometer over its shape shows every index once, the
number of a cell written in digits, and what a cell holds is what answers for the tuple that the
order of the axes makes of its index. -/
structure RowMajor (v : DenseView) : Prop where
  shape : v.shape = arrange v.order v.space.shape
  size : v.size = v.shape.prod
  walk : ∀ turns, v.size ≤ turns →
    (walk v.shape turns (first? v.shape)).filterMap
      (fun index => (v.get? index).map fun cell => (index, cell)) = v.cells
  length : v.cells.length = v.size
  cell : ∀ n < v.size, ∃ t, t.length = v.space.rank ∧ arrange v.order t = digits v.shape n ∧
    v.cells[n]? = some (digits v.shape n, v.space.entryAt? t) ∧
    ((v.space.entryAt? t).isSome ↔ ∃ e ∈ v.space.entries, e.indices = t) ∧
    (∀ w, v.space.entryAt? t = some w → w.Wins v.space.policy (v.space.entriesAt t)) ∧
    ∀ (α : Type) (missing : α) (f : Entry → α),
      (v.fill missing f)[n]? = some (match v.space.entryAt? t with
        | some e => f e
        | none => missing)
  present : (v.cells.filter fun c => c.2.isSome).length = v.presentCount
  missing : (v.cells.filter fun c => c.2.isNone).length = v.missingCount
  bounded : v.presentCount ≤ v.size

def arranged (s : Space) (order : List Nat) : DenseView :=
  ⟨s, order, arrange order s.shape, s.shape.prod⟩

theorem ofSpace_eq_ok {s : Space} {order : List Nat} {v : DenseView}
    (h : ofSpace s order = .ok v) : order.Perm (List.range s.rank) ∧ v = arranged s order := by
  unfold ofSpace at h
  split at h
  · next hperm =>
    split at h
    · next size hsize =>
      cases h
      obtain rfl := Space.product?_eq_some hsize
      exact ⟨perm_of_isPermutation hperm, rfl⟩
    · cases h
  · cases h

theorem ofSpace_of_perm {s : Space} {order : List Nat} (perm : order.Perm (List.range s.rank)) :
    ofSpace s order = match s.denseSize? with
      | some _ => .ok (arranged s order)
      | none => .error (.tooLarge (arrange order s.shape)) := by
  rw [ofSpace, if_pos (isPermutation_iff.mpr perm)]
  cases hsize : s.denseSize? with
  | some size =>
    obtain rfl := Space.product?_eq_some hsize
    rfl
  | none => rfl

theorem ofSpace_of_not_perm {s : Space} {order : List Nat}
    (h : ¬ order.Perm (List.range s.rank)) : ofSpace s order = .error (.order order s.rank) :=
  if_neg fun hperm => h (perm_of_isPermutation hperm)

section Arranged

variable {s : Space} {order : List Nat}

theorem get?_arranged {index : List Nat} (h : index ∈ tuples (arrange order s.shape)) :
    (arranged s order).get? index = some (s.entryAt? (undo order index)) := by
  obtain ⟨hlength, hlt⟩ := List.forall₂_iff_zip.mp (mem_tuples_iff.mp h)
  have hall : (index.zip (arrange order s.shape)).all (fun p => p.1 < p.2) :=
    List.all_eq_true.mpr fun p hp => decide_eq_true (hlt hp)
  exact if_pos (Bool.and_eq_true_iff.mpr ⟨decide_eq_true hlength, hall⟩)

variable (perm : order.Perm (List.range s.rank))
include perm

theorem prod_arrange : (arrange order s.shape).prod = s.shape.prod :=
  (arrange_perm (by simpa [Space.shape, Space.rank] using perm)).prod_eq

theorem length_of_mem_tuples {index : List Nat} (h : index ∈ tuples (arrange order s.shape)) :
    index.length = s.rank := by
  have := (mem_tuples_iff.mp h).length_eq
  rw [this, arrange, List.length_map, perm.length_eq, List.length_range]

theorem length_undo (index : List Nat) : (undo order index).length = s.rank := by
  rw [undo, List.length_map, List.length_range, perm.length_eq, List.length_range]

/-- The indices of the view stand for the tuples of the space, each for one. -/
theorem mem_map_undo_iff {t : List Nat} :
    t ∈ (tuples (arrange order s.shape)).map (undo order) ↔
      List.Forall₂ (· < ·) t s.shape := by
  have hshape : s.shape.length = s.rank := List.length_map _
  constructor
  · intro h
    obtain ⟨index, hindex, rfl⟩ := List.mem_map.mp h
    have hlength := length_of_mem_tuples perm hindex
    have hundo := length_undo perm index
    rw [← forall₂_arrange_iff (hundo ▸ perm) (hundo.trans hshape.symm),
      arrange_undo (hlength ▸ perm)]
    exact mem_tuples_iff.mp hindex
  · intro h
    have hlength : t.length = s.rank := h.length_eq.trans hshape
    refine List.mem_map.mpr ⟨arrange order t, ?_, undo_arrange (hlength ▸ perm)⟩
    rwa [mem_tuples_iff, forall₂_arrange_iff (hlength ▸ perm) h.length_eq]

theorem nodup_map_undo : ((tuples (arrange order s.shape)).map (undo order)).Nodup := by
  refine (nodup_tuples _).map_on fun index hindex other hother heq => ?_
  have hback {index : List Nat} (h : index ∈ tuples (arrange order s.shape)) :
      arrange order (undo order index) = index :=
    arrange_undo (length_of_mem_tuples perm h ▸ perm)
  rw [← hback hindex, heq, hback hother]

/-- Of the tuples that a view stands for, those in use are the cells of the space. -/
theorem filter_map_undo_perm (h : s.Sound) :
    (((tuples (arrange order s.shape)).map (undo order)).filter
      fun t => (s.entryAt? t).isSome).Perm (s.cells.map Cell.indices) := by
  have hcells := h.consistent
  rw [List.perm_ext_iff_of_nodup ((nodup_map_undo perm).filter _) hcells.cells]
  intro t
  rw [List.mem_filter, mem_map_undo_iff perm, Space.isSome_entryAt?_iff, and_iff_right_iff_imp]
  intro ht
  obtain ⟨e, he, rfl⟩ := (hcells.occupied t).mp ht
  exact h.inRange e he

theorem length_present (h : s.Sound) :
    ((arranged s order).cells.filter fun c => c.2.isSome).length =
      (arranged s order).presentCount := by
  have hcount := (filter_map_undo_perm perm h).length_eq
  rw [List.filter_map, List.length_map, List.length_map] at hcount
  rw [cells, List.filter_map, List.length_map]
  exact hcount

theorem cells_arranged : (arranged s order).cells = (List.range s.shape.prod).map fun n =>
    (digits (arrange order s.shape) n,
      s.entryAt? (undo order (digits (arrange order s.shape) n))) := by
  rw [cells, tuples_eq_map_digits, List.map_map]
  exact congrArg _ (congrArg List.range (prod_arrange perm))

theorem exists_tuple {n : Nat} (hn : n < s.shape.prod) : ∃ t, t.length = s.rank ∧
    arrange order t = digits (arrange order s.shape) n ∧
    (arranged s order).cells[n]? = some (digits (arrange order s.shape) n, s.entryAt? t) := by
  have hmem : digits (arrange order s.shape) n ∈ tuples (arrange order s.shape) := by
    rw [tuples_eq_map_digits]
    exact List.mem_map_of_mem (List.mem_range.mpr ((prod_arrange perm).symm ▸ hn))
  have hindex := length_of_mem_tuples perm hmem
  refine ⟨undo order (digits (arrange order s.shape) n), length_undo perm _,
    arrange_undo (hindex ▸ perm), ?_⟩
  rw [cells_arranged perm, List.getElem?_map, List.getElem?_range hn]
  rfl

/-- The views of a sound space are arrays in row-major order. -/
theorem rowMajor_arranged (h : s.Sound) : (arranged s order).RowMajor := by
  have hlength : (arranged s order).cells.length = s.shape.prod := by
    rw [cells_arranged perm, List.length_map, List.length_range]
  have hpresent := length_present perm h
  have hsplit := List.length_eq_length_filter_add (l := (arranged s order).cells)
    fun c => c.2.isSome
  rw [hlength, hpresent] at hsplit
  refine ⟨rfl, (prod_arrange perm).symm, fun turns hturns => ?walk, hlength,
    fun n hn => ?cell, hpresent, ?missing, Nat.le.intro hsplit.symm⟩
  case walk =>
    have hprod : (arrange order s.shape).prod ≤ turns := (prod_arrange perm).trans_le hturns
    rw [show (arranged s order).shape = arrange order s.shape from rfl, walk_first? hprod, cells,
      ← List.filterMap_eq_map]
    exact List.filterMap_congr fun index hindex => by
      rw [get?_arranged hindex]
      rfl
  case cell =>
    obtain ⟨t, hlength, hindex, hcell⟩ := exists_tuple perm hn
    refine ⟨t, hlength, hindex, hcell, ?_, fun w hw => Space.wins_of_entryAt? h.cells hw,
      fun α missing f => ?_⟩
    · exact Space.isSome_entryAt?_iff.trans (h.consistent.occupied t)
    · rw [fill, List.getElem?_map, hcell]
      cases hentry : s.entryAt? t <;> simp [arranged, hentry]
  case missing =>
    have hnot : (fun c : List Nat × Option Entry => !c.2.isSome) = fun c => c.2.isNone := by
      funext c
      cases c.2 <;> rfl
    rw [hnot] at hsplit
    exact (Nat.sub_eq_of_eq_add' hsplit).symm

end Arranged

/-- Every view of a space, however the space came about, is a row-major array of its cells. -/
theorem rowMajor_of_reachable {s : Space} (h : s.Reachable) {order : List Nat} {v : DenseView}
    (hv : ofSpace s order = .ok v) :
    v.space = s ∧ v.order = order ∧ order.Perm (List.range s.rank) ∧ v.RowMajor := by
  obtain ⟨perm, rfl⟩ := ofSpace_eq_ok hv
  exact ⟨rfl, rfl, perm, rowMajor_arranged perm h.sound⟩

/-- Two runs of three forecasts with times first: of the six cells one is missing, and one is shared
by two records. -/
theorem rowMajor_of_reachable_transposed :
    let run (seconds : Int) : AxisValue := .runtime ⟨seconds, 0⟩
    let x : Snapshot :=
      ⟨1, .lastWins, [⟨"runtime", .runtime, [run 0, run 3600]⟩,
        ⟨"time", .time, [.offset 0, .offset 3, .offset 6]⟩],
        [⟨0, ⟨0, 0, 28, 0⟩, [0, 0]⟩, ⟨1, ⟨0, 28, 28, 0⟩, [0, 1]⟩, ⟨2, ⟨0, 56, 28, 0⟩, [0, 2]⟩,
          ⟨3, ⟨0, 84, 28, 0⟩, [1, 0]⟩, ⟨4, ⟨0, 112, 28, 0⟩, [1, 2]⟩, ⟨5, ⟨0, 140, 28, 0⟩, [0, 1]⟩],
        6⟩
    ∃ s v, Space.restore x = .ok s ∧ s.Reachable ∧ ofSpace s [1, 0] = .ok v ∧ v.shape = [3, 2] ∧
      v.fill 9 Entry.position = [0, 3, 5, 9, 2, 4] ∧ v.missingCount = 1 ∧ v.RowMajor := by
  intro run x
  have restored : Space.restore x = .ok (Space.assemble x.axes x.entries .lastWins 6) := rfl
  have viewed : ofSpace (Space.assemble x.axes x.entries .lastWins 6) [1, 0] =
      .ok (arranged (Space.assemble x.axes x.entries .lastWins 6) [1, 0]) := rfl
  obtain ⟨-, -, -, rows⟩ := rowMajor_of_reachable (.restore restored) viewed
  exact ⟨_, _, restored, .restore restored, viewed, by decide, by decide, by decide, rows⟩

end DenseView

end GribCatalog
