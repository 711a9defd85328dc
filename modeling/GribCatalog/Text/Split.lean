/-!
Cutting text at a separator.
-/

namespace GribCatalog.Text

def splitOnce? (sep : Char) : List Char → Option (List Char × List Char)
  | [] => none
  | c :: cs =>
    if c = sep then some ([], cs)
    else (splitOnce? sep cs).map fun (before, after) => (c :: before, after)

def splitAt? (pat : List Char) : List Char → Option (List Char × List Char)
  | [] => if pat = [] then some ([], []) else none
  | c :: cs =>
    if pat.isPrefixOf (c :: cs) then some ([], (c :: cs).drop pat.length)
    else (splitAt? pat cs).map fun (before, after) => (c :: before, after)

theorem length_of_splitOnce? {sep : Char} {cs before after : List Char}
    (h : splitOnce? sep cs = some (before, after)) :
    before.length + after.length + 1 = cs.length := by
  induction cs generalizing before with
  | nil => simp [splitOnce?] at h
  | cons c cs ih =>
    rw [splitOnce?] at h
    split at h
    · simp at h
      simp [← h.1, ← h.2]
    · obtain ⟨⟨b, a⟩, hb, he⟩ := Option.map_eq_some_iff.1 h
      simp at he
      have := ih (he.2 ▸ hb)
      simp [← he.1]
      omega

theorem splitOnce?_append {sep : Char} {cs : List Char} (h : sep ∉ cs) (rest : List Char) :
    splitOnce? sep (cs ++ sep :: rest) = some (cs, rest) := by
  induction cs with
  | nil => simp [splitOnce?]
  | cons c cs ih =>
    rw [List.mem_cons, not_or] at h
    rw [List.cons_append, splitOnce?, if_neg (Ne.symm h.1), ih h.2]
    rfl

theorem splitOnce?_eq_some_iff {sep : Char} {cs before after : List Char} :
    splitOnce? sep cs = some (before, after) ↔ sep ∉ before ∧ cs = before ++ sep :: after := by
  constructor
  · intro h
    induction cs generalizing before with
    | nil => simp [splitOnce?] at h
    | cons c cs ih =>
      rw [splitOnce?] at h
      by_cases hc : c = sep
      · rw [if_pos hc] at h
        cases h
        simp [hc]
      · rw [if_neg hc] at h
        obtain ⟨⟨front, _⟩, hsplit, hpair⟩ := Option.map_eq_some_iff.mp h
        cases hpair
        obtain ⟨hfront, rfl⟩ := ih hsplit
        exact ⟨fun hmem => (List.mem_cons.mp hmem).elim (fun heq => hc heq.symm) hfront, rfl⟩
  · rintro ⟨h, rfl⟩
    exact splitOnce?_append h after

theorem splitOnce?_eq_none_iff {sep : Char} {cs : List Char} :
    splitOnce? sep cs = none ↔ sep ∉ cs := by
  constructor
  · intro h hmem
    obtain ⟨before, after, rfl, hbefore⟩ := List.eq_append_cons_of_mem hmem
    rw [splitOnce?_append hbefore] at h
    cases h
  · intro h
    rw [Option.eq_none_iff_forall_not_mem]
    rintro ⟨before, after⟩ hsplit
    obtain ⟨-, rfl⟩ := splitOnce?_eq_some_iff.mp hsplit
    exact h (by simp)

theorem splitAt?_eq_none_iff {pat cs : List Char} (h : pat ≠ []) :
    splitAt? pat cs = none ↔ ¬ pat <:+: cs := by
  induction cs with
  | nil => simp [splitAt?, h]
  | cons c cs ih =>
    rw [splitAt?, List.infix_cons_iff, not_or, ← ih, ← List.isPrefixOf_iff_prefix]
    split
    · next hpre => simp [hpre]
    · next hpre => simp [hpre]

theorem of_splitAt? {pat cs before after : List Char} (hpat : pat ≠ [])
    (h : splitAt? pat cs = some (before, after)) :
    cs = before ++ pat ++ after ∧ ¬ pat <:+: before := by
  induction cs generalizing before with
  | nil => simp [splitAt?, hpat] at h
  | cons c cs ih =>
    rw [splitAt?] at h
    split at h
    · next hpre =>
      cases h
      obtain ⟨rest, hrest⟩ := List.isPrefixOf_iff_prefix.mp hpre
      simp [← hrest, hpat]
    · next hpre =>
      obtain ⟨⟨front, _⟩, hsplit, hpair⟩ := Option.map_eq_some_iff.mp h
      cases hpair
      obtain ⟨rfl, hfirst⟩ := ih hsplit
      refine ⟨rfl, fun hmem => ?_⟩
      rcases List.infix_cons_iff.mp hmem with hstart | hlater
      · refine hpre (List.isPrefixOf_iff_prefix.mpr (hstart.trans ?_))
        exact ⟨pat ++ after, by simp⟩
      · exact hfirst hlater

/-- Two different characters do not overlap themselves, so they are found where they stand first. -/
theorem splitAt?_append {p q : Char} (hne : p ≠ q) {before : List Char}
    (h : ¬ [p, q] <:+: before) (after : List Char) :
    splitAt? [p, q] (before ++ p :: q :: after) = some (before, after) := by
  induction before with
  | nil => simp [splitAt?]
  | cons c before ih =>
    have hpre : ¬ [p, q].isPrefixOf (c :: (before ++ p :: q :: after)) = true := by
      rw [List.isPrefixOf_iff_prefix]
      cases before with
      | nil => simp [hne.symm]
      | cons d before =>
        intro hstart
        simp only [List.cons_append, List.cons_prefix_cons] at hstart
        obtain ⟨rfl, rfl, -⟩ := hstart
        exact h ⟨[], before, rfl⟩
    rw [List.infix_cons_iff, not_or] at h
    rw [List.cons_append, splitAt?, if_neg hpre, ih h.2]
    rfl

/-- The pieces between separators: one more than there are separators. -/
def pieces (sep : Char) : List Char → List (List Char)
  | [] => [[]]
  | c :: cs =>
    if c = sep then [] :: pieces sep cs
    else
      match pieces sep cs with
      | [] => [[c]]
      | p :: ps => (c :: p) :: ps

/-- The text with every occurrence of a non-empty `pat` replaced, from left to right. -/
def replace (pat new : List Char) (cs : List Char) : List Char :=
  match pat, cs with
  | [], cs => cs
  | _ :: _, [] => []
  | p :: ps, c :: cs =>
    if (p :: ps).isPrefixOf (c :: cs) then new ++ replace (p :: ps) new (cs.drop ps.length)
    else c :: replace (p :: ps) new cs
termination_by cs.length
decreasing_by
  all_goals
    simp only [List.length_cons, List.length_drop]
    omega

end GribCatalog.Text
