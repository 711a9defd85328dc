import GribCatalog.Proofs.Sorting
import GribCatalog.Space.Basic
import Mathlib.Algebra.Ring.Nat
import Mathlib.Data.List.Induction

/-! Cells and duplicates. One pass over the entries keeps, for every tuple that some
entry has, the entry that the policy prefers and the positions of all its entries.
With distinct positions none of this depends on the order of the entries. -/

namespace GribCatalog

/-- One of some entries is the one of greatest position and, among these, the last listed; or it
is the one of least position and the first listed. -/
def Entry.Wins (policy : DuplicatePolicy) (w : Entry) (entries : List Entry) : Prop :=
  ∃ before after, entries = before ++ w :: after ∧
    match policy with
    | .lastWins =>
      (∀ e ∈ before, e.position ≤ w.position) ∧ ∀ e ∈ after, e.position < w.position
    | .firstWins =>
      (∀ e ∈ before, w.position < e.position) ∧ ∀ e ∈ after, w.position ≤ e.position

namespace Entry.Wins

variable {policy : DuplicatePolicy} {w : Entry} {entries : List Entry}

theorem mem (h : Wins policy w entries) : w ∈ entries := by
  obtain ⟨before, after, rfl, -⟩ := h
  exact List.mem_append_right before List.mem_cons_self

theorem singleton (policy : DuplicatePolicy) (e : Entry) : Wins policy e [e] :=
  ⟨[], [], rfl, by cases policy <;> simp⟩

/-- No entry stands beyond the winner. -/
theorem bound (h : Wins policy w entries) {e : Entry} (he : e ∈ entries) :
    match policy with
    | .lastWins => e.position ≤ w.position
    | .firstWins => w.position ≤ e.position := by
  obtain ⟨before, after, rfl, h⟩ := h
  rw [List.mem_append, List.mem_cons] at he
  cases policy with
  | lastWins =>
    rcases he with he | rfl | he
    · exact h.1 e he
    · exact Nat.le_refl _
    · exact Nat.le_of_lt (h.2 e he)
  | firstWins =>
    rcases he with he | rfl | he
    · exact Nat.le_of_lt (h.1 e he)
    · exact Nat.le_refl _
    · exact h.2 e he

/-- One more entry takes the cell or leaves it to the winner. -/
theorem snoc (h : Wins policy w entries) (e : Entry) :
    Wins policy (if policy.replaces w.position e.position then e else w) (entries ++ [e]) := by
  split
  · next hreplaces =>
    refine ⟨entries, [], rfl, ?_⟩
    cases policy with
    | lastWins =>
      have hle : w.position ≤ e.position := of_decide_eq_true hreplaces
      exact ⟨fun x hx => Nat.le_trans (h.bound hx) hle, by simp⟩
    | firstWins =>
      have hlt : e.position < w.position := of_decide_eq_true hreplaces
      exact ⟨fun x hx => Nat.lt_of_lt_of_le hlt (h.bound hx), by simp⟩
  · next hkept =>
    obtain ⟨before, after, rfl, h⟩ := h
    refine ⟨before, after ++ [e], by simp, ?_⟩
    cases policy with
    | lastWins =>
      have hlt : e.position < w.position := by
        simpa [DuplicatePolicy.replaces] using hkept
      exact ⟨h.1, List.forall_mem_append.mpr ⟨h.2, by simpa using hlt⟩⟩
    | firstWins =>
      have hle : w.position ≤ e.position := by
        simpa [DuplicatePolicy.replaces] using hkept
      exact ⟨h.1, List.forall_mem_append.mpr ⟨h.2, by simpa using hle⟩⟩

/-- Where positions are distinct the winner does not depend on the order of the entries. -/
theorem eq_of_perm {w' : Entry} {entries' : List Entry} (h : Wins policy w entries)
    (h' : Wins policy w' entries') (perm : entries'.Perm entries)
    (distinct : (entries.map Entry.position).Nodup) : w' = w := by
  have hw := h'.bound (perm.mem_iff.mpr h.mem)
  have hw' := h.bound (perm.mem_iff.mp h'.mem)
  refine List.inj_on_of_nodup_map distinct (perm.mem_iff.mp h'.mem) h.mem ?_
  cases policy with
  | lastWins => exact Nat.le_antisymm hw' hw
  | firstWins => exact Nat.le_antisymm hw hw'

end Entry.Wins

namespace Cell

variable {policy : DuplicatePolicy} {cells : List Cell} {entries : List Entry} {e : Entry}

/-- An entry changes the cell of its indices and no other, or adds that cell. -/
theorem place_cases (policy : DuplicatePolicy) (cells : List Cell) (e : Entry) :
    (e.indices ∉ cells.map indices ∧
      place policy cells e = cells ++ [⟨e.indices, e, [e.position]⟩]) ∨
    ∃ before c after, cells = before ++ c :: after ∧ c.indices = e.indices ∧
      place policy cells e = before ++ c.share policy e :: after := by
  induction cells with
  | nil => exact .inl ⟨List.not_mem_nil, rfl⟩
  | cons c cells ih =>
    by_cases hc : c.indices = e.indices
    · exact .inr ⟨[], c, cells, rfl, hc, by simp [place, hc]⟩
    · have hplace : place policy (c :: cells) e = c :: place policy cells e := if_neg hc
      rw [hplace]
      rcases ih with ⟨hnew, h⟩ | ⟨before, d, after, rfl, hd, h⟩
      · exact .inl ⟨by simp [Ne.symm hc, hnew], congrArg (c :: ·) h⟩
      · exact .inr ⟨c :: before, d, after, rfl, hd, congrArg (c :: ·) h⟩

structure Keeps (policy : DuplicatePolicy) (entries : List Entry) (c : Cell) : Prop where
  winner : Entry.Wins policy c.winner (entries.filter fun e => e.indices = c.indices)
  positions : c.positions = (entries.filter fun e => e.indices = c.indices).map Entry.position

theorem filter_snoc (entries : List Entry) (e : Entry) (t : List Nat) :
    (entries ++ [e]).filter (fun x => x.indices = t) =
      entries.filter (fun x => x.indices = t) ++ if e.indices = t then [e] else [] := by
  rw [List.filter_append, List.filter_singleton]
  simp

theorem Keeps.snoc_of_ne {c : Cell} (h : Keeps policy entries c) (hne : c.indices ≠ e.indices) :
    Keeps policy (entries ++ [e]) c := by
  have hsame : (entries ++ [e]).filter (fun x => x.indices = c.indices) =
      entries.filter fun x => x.indices = c.indices := by
    rw [filter_snoc, if_neg (Ne.symm hne), List.append_nil]
  exact ⟨hsame ▸ h.winner, hsame ▸ h.positions⟩

theorem Keeps.share {c : Cell} (h : Keeps policy entries c) (heq : c.indices = e.indices) :
    Keeps policy (entries ++ [e]) (c.share policy e) := by
  have hmore : (entries ++ [e]).filter (fun x => x.indices = (c.share policy e).indices) =
      entries.filter (fun x => x.indices = c.indices) ++ [e] := by
    rw [Cell.share, filter_snoc, if_pos heq.symm]
  constructor
  · rw [hmore]
    exact h.winner.snoc e
  · rw [hmore, List.map_append, ← h.positions]
    rfl

theorem keeps_new (hnew : ∀ x ∈ entries, x.indices ≠ e.indices) :
    Keeps policy (entries ++ [e]) ⟨e.indices, e, [e.position]⟩ := by
  have hone : (entries ++ [e]).filter (fun x => x.indices = e.indices) = [e] := by
    rw [filter_snoc, if_pos rfl, List.filter_eq_nil_iff.mpr (by simpa using hnew), List.nil_append]
  constructor
  · simp only [hone]
    exact .singleton policy e
  · simp only [hone, List.map_singleton]

structure Cover (policy : DuplicatePolicy) (entries : List Entry) (cells : List Cell) :
    Prop where
  nodup : (cells.map indices).Nodup
  mem_iff : ∀ t, t ∈ cells.map indices ↔ ∃ e ∈ entries, e.indices = t
  keeps : ∀ c ∈ cells, Keeps policy entries c

theorem Cover.place (h : Cover policy entries cells) (e : Entry) :
    Cover policy (entries ++ [e]) (place policy cells e) := by
  have hmem (t : List Nat) : (∃ x ∈ entries ++ [e], x.indices = t) ↔
      (∃ x ∈ entries, x.indices = t) ∨ e.indices = t := by
    simp [or_and_right, exists_or]
  rcases place_cases policy cells e with ⟨hnew, hplace⟩ | ⟨before, c, after, hcells, hc, hplace⟩
  · rw [hplace]
    refine ⟨?_, fun t => ?_, fun d hd => ?_⟩
    · rw [List.map_append, List.map_singleton, ← List.concat_eq_append]
      exact h.nodup.concat hnew
    · rw [hmem, ← h.mem_iff, List.map_append, List.mem_append]
      simp [eq_comm]
    · rcases List.mem_append.mp hd with hd | hd
      · exact (h.keeps d hd).snoc_of_ne fun hde => hnew (hde ▸ List.mem_map_of_mem hd)
      · obtain rfl := List.mem_singleton.mp hd
        exact keeps_new fun x hx hxe => hnew ((h.mem_iff _).mpr ⟨x, hx, hxe⟩)
  · have hkeys : (Cell.place policy cells e).map indices = cells.map indices := by
      rw [hplace, hcells, List.map_append, List.map_append]
      rfl
    refine ⟨hkeys ▸ h.nodup, fun t => ?_, fun d hd => ?_⟩
    · have hheld : e.indices ∈ cells.map indices := by simp [hcells, hc]
      rw [hkeys, hmem, ← h.mem_iff]
      exact ⟨.inl, fun ht => ht.elim id fun ht => ht ▸ hheld⟩
    · -- the other cells have other indices than the one that is shared
      have hothers : ∀ d ∈ before ++ after, d.indices ≠ e.indices := by
        have hnodup := h.nodup
        rw [hcells, List.map_append, List.map_cons, List.nodup_middle, List.nodup_cons,
          ← List.map_append] at hnodup
        exact fun d hd hde => hnodup.1 (hc.trans hde.symm ▸ List.mem_map_of_mem hd)
      rw [hplace, List.mem_append, List.mem_cons] at hd
      rcases hd with hd | rfl | hd
      · exact (h.keeps d (by simp [hcells, hd])).snoc_of_ne
          (hothers d (List.mem_append_left _ hd))
      · exact (h.keeps c (by simp [hcells])).share hc
      · exact (h.keeps d (by simp [hcells, hd])).snoc_of_ne
          (hothers d (List.mem_append_right _ hd))

theorem cover_ofEntries (policy : DuplicatePolicy) (entries : List Entry) :
    Cover policy entries (ofEntries policy entries) := by
  induction entries using List.reverseRecOn with
  | nil => exact ⟨List.nodup_nil, by simp [ofEntries], by simp [ofEntries]⟩
  | append_singleton entries e ih =>
    rw [ofEntries, List.foldl_append]
    exact ih.place e

theorem Cover.winner_mem (h : Cover policy entries cells) {c : Cell} (hc : c ∈ cells) :
    c.winner ∈ entries ∧ c.winner.indices = c.indices := by
  obtain ⟨hmem, hindices⟩ := List.mem_filter.mp (h.keeps c hc).winner.mem
  exact ⟨hmem, of_decide_eq_true hindices⟩

theorem sum_positions_place (policy : DuplicatePolicy) (cells : List Cell) (e : Entry) :
    ((place policy cells e).map (·.positions.length)).sum =
      (cells.map (·.positions.length)).sum + 1 := by
  rcases place_cases policy cells e with ⟨-, hplace⟩ | ⟨before, c, after, rfl, -, hplace⟩
  · simp [hplace]
  · simp [hplace, share]
    omega

theorem sum_positions_ofEntries (policy : DuplicatePolicy) (entries : List Entry) :
    ((ofEntries policy entries).map (·.positions.length)).sum = entries.length := by
  induction entries using List.reverseRecOn with
  | nil => rfl
  | append_singleton entries e ih =>
    rw [ofEntries, List.foldl_append, List.length_append]
    exact (sum_positions_place policy _ e).trans (congrArg (· + 1) ih)

end Cell

namespace Duplicate

theorem le_iff {a b : Duplicate} :
    a.le b ↔ a.positions.headD 0 < b.positions.headD 0 ∨
      (a.positions.headD 0 = b.positions.headD 0 ∧ ¬ b.indices < a.indices) := by
  simp [Duplicate.le]

theorem le_trans {a b c : Duplicate} (hab : a.le b) (hbc : b.le c) : a.le c := by
  rw [le_iff] at *
  rcases hab with hab | ⟨hab, habi⟩ <;> rcases hbc with hbc | ⟨hbc, hbci⟩
  · exact .inl (by omega)
  · exact .inl (by omega)
  · exact .inl (by omega)
  · have hac := List.le_trans (List.not_lt.mp habi) (List.not_lt.mp hbci)
    exact .inr ⟨by omega, List.not_lt.mpr hac⟩

theorem le_total (a b : Duplicate) : (a.le b || b.le a) = true := by
  rw [Bool.or_eq_true, le_iff, le_iff]
  rcases Nat.lt_trichotomy (a.positions.headD 0) (b.positions.headD 0) with h | h | h
  · exact .inl (.inl h)
  · rcases List.le_total a.indices b.indices with hi | hi
    · exact .inl (.inr ⟨h, List.not_lt.mpr hi⟩)
    · exact .inr (.inr ⟨h.symm, List.not_lt.mpr hi⟩)
  · exact .inr (.inl h)

theorem indices_eq_of_le {a b : Duplicate} (hab : a.le b) (hba : b.le a) :
    a.indices = b.indices := by
  rw [le_iff] at hab hba
  rcases hab with hab | ⟨hab, habi⟩ <;> rcases hba with hba | ⟨hba, hbai⟩
  · omega
  · omega
  · omega
  · exact List.le_antisymm (List.not_lt.mp habi) (List.not_lt.mp hbai)

end Duplicate

theorem pairwise_mergeSort_nat (l : List Nat) : l.mergeSort.Pairwise (· ≤ ·) :=
  @pairwise_mergeSort_key Nat id l

theorem mergeSort_congr {l l' : List Nat} (perm : l'.Perm l) : l'.mergeSort = l.mergeSort :=
  List.Perm.eq_of_pairwise (fun _ _ _ _ => Nat.le_antisymm) (pairwise_mergeSort_nat l')
    (pairwise_mergeSort_nat l)
    ((List.mergeSort_perm l' _).trans (perm.trans (List.mergeSort_perm l _).symm))

namespace Cell

variable {policy : DuplicatePolicy} {cells : List Cell} {entries : List Entry}

theorem filterMap_duplicate? (cells : List Cell) :
    cells.filterMap duplicate? = (cells.filter fun c => 2 ≤ c.positions.length).map
      fun c => ⟨c.indices, c.positions.mergeSort⟩ := by
  induction cells with
  | nil => rfl
  | cons c cells ih =>
    by_cases hc : 2 ≤ c.positions.length
    · simp [duplicate?, hc, ih]
    · simp [duplicate?, hc, ih]

theorem duplicates_perm (cells : List Cell) :
    (duplicates cells).Perm ((cells.filter fun c => 2 ≤ c.positions.length).map
      fun c => ⟨c.indices, c.positions.mergeSort⟩) :=
  filterMap_duplicate? cells ▸ List.mergeSort_perm _ _

theorem pairwise_duplicates (cells : List Cell) :
    (duplicates cells).Pairwise fun a b => a.le b = true :=
  List.pairwise_mergeSort (fun a b c => @Duplicate.le_trans a b c)
    (fun a b => Duplicate.le_total a b) _

/-- What several entries of a cell have to say beyond the first is said by the duplicates. -/
theorem sum_positions_duplicates (h : ∀ c ∈ cells, c.positions ≠ []) :
    (cells.map (·.positions.length)).sum =
      cells.length + ((duplicates cells).map fun d => d.positions.length - 1).sum := by
  rw [((duplicates_perm cells).map _).sum_nat, List.map_map]
  induction cells with
  | nil => rfl
  | cons c cells ih =>
    rw [List.forall_mem_cons] at h
    have hc := List.length_pos_iff.mpr h.1
    rw [List.map_cons, List.sum_cons, ih h.2, List.length_cons]
    by_cases hshared : 2 ≤ c.positions.length
    · rw [List.filter_cons_of_pos (by simpa using hshared), List.map_cons, List.sum_cons]
      simp only [Function.comp_apply, List.length_mergeSort]
      omega
    · rw [List.filter_cons_of_neg (by simpa using hshared)]
      omega

namespace Cover

theorem positions_ne_nil (h : Cover policy entries cells) {c : Cell} (hc : c ∈ cells) :
    c.positions ≠ [] := by
  rw [(h.keeps c hc).positions, ne_eq, List.map_eq_nil_iff]
  exact List.ne_nil_of_mem (h.keeps c hc).winner.mem

theorem nodup_duplicates (h : Cover policy entries cells) :
    ((duplicates cells).map Duplicate.indices).Nodup := by
  rw [((duplicates_perm cells).map _).nodup_iff, List.map_map]
  exact h.nodup.sublist (List.filter_sublist.map indices)

theorem mem_duplicates_iff (h : Cover policy entries cells) {d : Duplicate} :
    d ∈ duplicates cells ↔ 2 ≤ (entries.filter fun e => e.indices = d.indices).length ∧
      d.positions =
        ((entries.filter fun e => e.indices = d.indices).map Entry.position).mergeSort := by
  simp only [(duplicates_perm cells).mem_iff, List.mem_map, List.mem_filter, decide_eq_true_eq]
  constructor
  · rintro ⟨c, ⟨hc, hshared⟩, rfl⟩
    have hpositions := (h.keeps c hc).positions
    rw [hpositions, List.length_map] at hshared
    exact ⟨hshared, congrArg List.mergeSort hpositions⟩
  · rintro ⟨hshared, hpositions⟩
    obtain ⟨e, he⟩ := List.exists_mem_of_length_pos (Nat.lt_of_lt_of_le Nat.two_pos hshared)
    obtain ⟨hmem, hindices⟩ := List.mem_filter.mp he
    obtain ⟨c, hc, hcd⟩ := List.mem_map.mp
      ((h.mem_iff d.indices).mpr ⟨e, hmem, of_decide_eq_true hindices⟩)
    have hkept := (h.keeps c hc).positions
    rw [hcd] at hkept
    refine ⟨c, ⟨hc, by rw [hkept, List.length_map]; exact hshared⟩, ?_⟩
    rw [hkept, hcd, ← hpositions]

/-- The duplicates do not depend on the order of the entries. -/
theorem duplicates_eq_of_perm {entries' : List Entry} {cells' : List Cell}
    (h : Cover policy entries cells) (h' : Cover policy entries' cells')
    (perm : entries'.Perm entries) : duplicates cells' = duplicates cells := by
  have same (d : Duplicate) : d ∈ duplicates cells' ↔ d ∈ duplicates cells := by
    rw [h'.mem_duplicates_iff, h.mem_duplicates_iff, (perm.filter _).length_eq,
      mergeSort_congr ((perm.filter _).map _)]
  refine List.Perm.eq_of_pairwise (fun a b ha hb hab hba => ?_) (pairwise_duplicates cells')
    (pairwise_duplicates cells) ((List.perm_ext_iff_of_nodup (h'.nodup_duplicates.of_map _)
      (h.nodup_duplicates.of_map _)).mpr same)
  exact List.inj_on_of_nodup_map h.nodup_duplicates ((same a).mp ha) hb
    (Duplicate.indices_eq_of_le hab hba)

end Cover

end Cell

namespace Space

theorem entryAt?_of_mem {s : Space} (nodup : (s.cells.map Cell.indices).Nodup) {c : Cell}
    (hc : c ∈ s.cells) : s.entryAt? c.indices = some c.winner := by
  unfold entryAt?
  cases h : s.cells.find? fun d => d.indices = c.indices with
  | none => exact absurd (List.find?_eq_none.mp h c hc) (by simp)
  | some d =>
    have hindices : d.indices = c.indices := by simpa using List.find?_some h
    rw [List.inj_on_of_nodup_map nodup (List.mem_of_find?_eq_some h) hc hindices]
    rfl

theorem entryAt?_eq_none_iff {s : Space} {t : List Nat} :
    s.entryAt? t = none ↔ t ∉ s.cells.map Cell.indices := by
  simp [entryAt?]

theorem isSome_entryAt?_iff {s : Space} {t : List Nat} :
    (s.entryAt? t).isSome ↔ t ∈ s.cells.map Cell.indices := by
  simp [entryAt?]

theorem wins_of_entryAt? {s : Space} (cells : s.cells = Cell.ofEntries s.policy s.entries)
    {t : List Nat} {e : Entry} (h : s.entryAt? t = some e) :
    Entry.Wins s.policy e (s.entriesAt t) := by
  obtain ⟨c, hc, rfl⟩ := Option.map_eq_some_iff.mp h
  have hsame : c.indices = t := by simpa using List.find?_some hc
  have hmem := List.mem_of_find?_eq_some hc
  rw [cells] at hmem
  exact hsame ▸ ((Cell.cover_ofEntries s.policy s.entries).keeps c hmem).winner

/-- The winner of every occupied cell is the one that the policy says, and the duplicates are the
tuples of several entries: each once, with the positions of all of its entries ascending, and
ordered by the first of them. -/
structure Settles (s : Space) (duplicates : List Duplicate) : Prop where
  cells : (s.cells.map Cell.indices).Nodup
  occupied : ∀ t, t ∈ s.cells.map Cell.indices ↔ s.entriesAt t ≠ []
  winner : ∀ c ∈ s.cells, s.entryAt? c.indices = some c.winner ∧
    Entry.Wins s.policy c.winner (s.entriesAt c.indices)
  tuples : (duplicates.map Duplicate.indices).Nodup
  shared : ∀ t, t ∈ duplicates.map Duplicate.indices ↔ 2 ≤ (s.entriesAt t).length
  positions : ∀ d ∈ duplicates, d.positions.Pairwise (· ≤ ·) ∧
    d.positions.Perm ((s.entriesAt d.indices).map Entry.position)
  ordered : duplicates.Pairwise fun a b =>
    ∀ p ∈ a.positions.head?, ∀ q ∈ b.positions.head?, p ≤ q
  count : s.entries.length = s.cells.length + (duplicates.map fun d => d.positions.length - 1).sum

theorem settles_assemble (axes : List Axis) (entries : List Entry) (policy : DuplicatePolicy)
    (consumed : Nat) :
    (assemble axes entries policy consumed).Settles
      (Cell.duplicates (assemble axes entries policy consumed).cells) where
  cells := (Cell.cover_ofEntries policy entries).nodup
  occupied t := by
    refine ((Cell.cover_ofEntries policy entries).mem_iff t).trans ?_
    simp [entriesAt, assemble]
  winner c hc := ⟨entryAt?_of_mem (Cell.cover_ofEntries policy entries).nodup hc,
    ((Cell.cover_ofEntries policy entries).keeps c hc).winner⟩
  tuples := (Cell.cover_ofEntries policy entries).nodup_duplicates
  shared t := by
    rw [List.mem_map]
    constructor
    · rintro ⟨d, hd, rfl⟩
      exact ((Cell.cover_ofEntries policy entries).mem_duplicates_iff.mp hd).1
    · intro h
      exact ⟨⟨t, ((entries.filter fun e => e.indices = t).map Entry.position).mergeSort⟩,
        (Cell.cover_ofEntries policy entries).mem_duplicates_iff.mpr ⟨h, rfl⟩, rfl⟩
  positions d hd := by
    rw [((Cell.cover_ofEntries policy entries).mem_duplicates_iff.mp hd).2]
    exact ⟨pairwise_mergeSort_nat _, List.mergeSort_perm _ _⟩
  ordered := by
    refine (Cell.pairwise_duplicates _).imp fun {a b} h p hp q hq => ?_
    rw [Duplicate.le_iff, List.headD_eq_head?_getD, List.headD_eq_head?_getD,
      Option.mem_def.mp hp, Option.mem_def.mp hq] at h
    exact h.elim Nat.le_of_lt fun h => Nat.le_of_eq h.1
  count := by
    refine (Cell.sum_positions_ofEntries policy entries).symm.trans
      (Cell.sum_positions_duplicates fun c hc => ?_)
    exact (Cell.cover_ofEntries policy entries).positions_ne_nil hc

/-- Where positions are distinct, entries in another order have the same winners. -/
theorem entryAt?_eq_of_perm {entries entries' : List Entry} (perm : entries'.Perm entries)
    (distinct : (entries.map Entry.position).Nodup) (axes : List Axis) (policy : DuplicatePolicy)
    (consumed : Nat) (t : List Nat) :
    (assemble axes entries' policy consumed).entryAt? t =
      (assemble axes entries policy consumed).entryAt? t := by
  have cover := Cell.cover_ofEntries policy entries
  have cover' := Cell.cover_ofEntries policy entries'
  have same : t ∈ (Cell.ofEntries policy entries').map Cell.indices ↔
      t ∈ (Cell.ofEntries policy entries).map Cell.indices := by
    simp only [cover'.mem_iff, cover.mem_iff, perm.mem_iff]
  by_cases ht : t ∈ (Cell.ofEntries policy entries).map Cell.indices
  · obtain ⟨c, hc, rfl⟩ := List.mem_map.mp ht
    obtain ⟨c', hc', heq⟩ := List.mem_map.mp (same.mpr ht)
    have hwinner : c'.winner = c.winner := by
      refine (cover.keeps c hc).winner.eq_of_perm (heq ▸ (cover'.keeps c' hc').winner)
        (perm.filter _) ?_
      exact distinct.sublist (List.filter_sublist.map _)
    refine Eq.trans ?_ (entryAt?_of_mem (s := assemble axes entries policy consumed)
      cover.nodup hc).symm
    rw [← hwinner, ← heq]
    exact entryAt?_of_mem (s := assemble axes entries' policy consumed) cover'.nodup hc'
  · rw [entryAt?_eq_none_iff.mpr (fun h => ht (same.mp h)), entryAt?_eq_none_iff.mpr ht]

/-- The cells and the duplicates of any entries say what the policy makes of them, and where
positions are distinct they do not depend on the order of the entries. -/
theorem assemble_resolves_duplicates (axes : List Axis) (entries : List Entry)
    (policy : DuplicatePolicy) (consumed : Nat) :
    let s := assemble axes entries policy consumed
    s.Settles (Cell.duplicates s.cells) ∧
      ∀ entries', (entries.map Entry.position).Nodup → entries'.Perm entries →
        let s' := assemble axes entries' policy consumed
        (∀ t, s'.entryAt? t = s.entryAt? t) ∧
          Cell.duplicates s'.cells = Cell.duplicates s.cells :=
  ⟨settles_assemble axes entries policy consumed, fun entries' distinct perm =>
    ⟨entryAt?_eq_of_perm perm distinct axes policy consumed,
      (Cell.cover_ofEntries policy entries).duplicates_eq_of_perm
        (Cell.cover_ofEntries policy entries') perm⟩⟩

/-- Two tuples that interleave, and the same entries in the order of their positions. -/
theorem assemble_resolves_duplicates_interleaved :
    let entry (position : Nat) (t : List Nat) : Entry := ⟨position, ⟨0, 0, 0, 0⟩, t⟩
    let entries := [entry 4 [1], entry 7 [0], entry 2 [0], entry 5 [1], entry 3 [0], entry 9 [2]]
    let sorted := [entry 2 [0], entry 3 [0], entry 4 [1], entry 5 [1], entry 7 [0], entry 9 [2]]
    let s := assemble [] entries .firstWins 10
    let s' := assemble [] sorted .firstWins 10
    ((entries.map Entry.position).Nodup ∧ sorted.Perm entries) ∧
      s.entryAt? [0] = some (entry 2 [0]) ∧
      Cell.duplicates s.cells = [⟨[0], [2, 3, 7]⟩, ⟨[1], [4, 5]⟩] ∧
      (∀ t, s'.entryAt? t = s.entryAt? t) ∧ Cell.duplicates s'.cells = Cell.duplicates s.cells := by
  intro entry entries sorted s s'
  have distinct : (entries.map Entry.position).Nodup := by decide
  have perm : sorted.Perm entries := by decide
  have duplicates : Cell.duplicates s.cells = [⟨[0], [2, 3, 7]⟩, ⟨[1], [4, 5]⟩] := by
    simp [s, entries, entry, assemble, Cell.ofEntries, Cell.place, Cell.share,
      DuplicatePolicy.replaces, Cell.duplicates, Cell.duplicate?, List.mergeSort, Duplicate.le]
  exact ⟨⟨distinct, perm⟩, by decide, duplicates,
    (assemble_resolves_duplicates [] entries .firstWins 10).2 sorted distinct perm⟩

end Space

end GribCatalog
