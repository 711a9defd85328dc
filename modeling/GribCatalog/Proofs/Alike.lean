import GribCatalog.Yaml.Basic
import Mathlib.Data.List.Basic

/-! Equal trees. Mappings are compared by taking, for each member of the one, an equal member from
the other, whichever comes first. That this does not depend on the order rests on one fact: trees
that are equal to each other are equal to the same trees. -/

namespace GribCatalog.Yaml

variable {a b c : Yaml} {m n : Yaml × Yaml} {as bs cs : List (Yaml × Yaml)}

def twin (m n : Yaml × Yaml) : Bool :=
  m.1.alike n.1 && m.2.alike n.2

theorem alikeMembers_cons (m : Yaml × Yaml) (as bs : List (Yaml × Yaml)) :
    alikeMembers (m :: as) bs = (bs.any (twin m) && alikeMembers as (bs.eraseP (twin m))) := by
  obtain ⟨k, v⟩ := m
  rw [alikeMembers]
  rfl

/-! ### Every tree is equal to itself -/

mutual

theorem alike_refl : (a : Yaml) → a.alike a = true
  | null | bool _ | integer _ | real _ | text _ => by simp [alike]
  | sequence as => by rw [alike, alikeItems_refl as]
  | mapping as => by rw [alike, alikeMembers_refl as]
  | tagged _ a => by simp [alike, alike_refl a]

theorem alikeItems_refl : (as : List Yaml) → alikeItems as as = true
  | [] => rfl
  | a :: as => by rw [alikeItems, alike_refl a, alikeItems_refl as, Bool.and_self]

theorem alikeMembers_refl : (as : List (Yaml × Yaml)) → alikeMembers as as = true
  | [] => rfl
  | (k, v) :: as => by simp [alikeMembers, alike_refl k, alike_refl v, alikeMembers_refl as]

end

/-! ### Equal trees are equal to the same trees -/

/-- What is equal to a tree is equal to the same trees as it. -/
def Stable (a : Yaml) : Prop :=
  ∀ b, a.alike b = true → b.alike = a.alike

theorem twin_eq (key : Stable m.1) (value : Stable m.2) (h : twin m n = true) :
    twin n = twin m := by
  rw [twin, Bool.and_eq_true] at h
  funext x
  rw [twin, twin, key n.1 h.1, value n.2 h.2]

theorem alikeItems_eq {as : List Yaml} (stable : ∀ a ∈ as, Stable a) {bs : List Yaml}
    (h : alikeItems as bs = true) : alikeItems bs = alikeItems as := by
  induction as generalizing bs with
  | nil =>
    cases bs with
    | nil => rfl
    | cons b bs => simp [alikeItems] at h
  | cons a as ih =>
    obtain ⟨ha, has⟩ := List.forall_mem_cons.mp stable
    cases bs with
    | nil => simp [alikeItems] at h
    | cons b bs =>
      rw [alikeItems, Bool.and_eq_true] at h
      funext cs
      cases cs with
      | nil => rfl
      | cons c cs => rw [alikeItems, alikeItems, ha b h.1, ih has h.2]

/-- Either two members are equal to the same members or none is equal to both. -/
def Apart (m n : Yaml × Yaml) : Prop :=
  twin m = twin n ∨ ∀ x, twin m x = true → twin n x = false

theorem any_eraseP (h : ∀ x, twin m x = true → twin n x = false) (cs : List (Yaml × Yaml)) :
    (cs.eraseP (twin m)).any (twin n) = cs.any (twin n) := by
  rw [Bool.eq_iff_iff, List.any_eq_true, List.any_eq_true]
  constructor
  · rintro ⟨x, hx, hn⟩
    exact ⟨x, List.mem_of_mem_eraseP hx, hn⟩
  · rintro ⟨x, hx, hn⟩
    have hm : ¬ twin m x = true := fun hm => by simp [h x hm] at hn
    exact ⟨x, (List.mem_eraseP_of_neg hm).mpr hx, hn⟩

theorem alikeMembers_swap (h : Apart m n) (bs : List (Yaml × Yaml)) :
    alikeMembers (m :: n :: bs) = alikeMembers (n :: m :: bs) := by
  funext cs
  simp only [alikeMembers_cons]
  rcases h with hsame | hapart
  · rw [hsame]
  · have hapart' : ∀ x, twin n x = true → twin m x = false := fun x hn => by
      by_contra hm
      simp [hapart x (by simpa using hm)] at hn
    have hcomm : (cs.eraseP (twin m)).eraseP (twin n) = (cs.eraseP (twin n)).eraseP (twin m) :=
      List.eraseP_comm fun x _ => by
        by_cases hm : twin m x = true
        · exact .inr (by simp [hapart x hm])
        · exact .inl hm
    rw [any_eraseP hapart, any_eraseP hapart', hcomm, Bool.and_left_comm]

theorem alikeMembers_middle (before after : List (Yaml × Yaml)) (h : ∀ m ∈ before, Apart m n) :
    alikeMembers (before ++ n :: after) = alikeMembers (n :: (before ++ after)) := by
  induction before with
  | nil => rfl
  | cons m before ih =>
    obtain ⟨hm, hbefore⟩ := List.forall_mem_cons.mp h
    have hstep : alikeMembers (m :: (before ++ n :: after)) =
        alikeMembers (m :: n :: (before ++ after)) := by
      funext cs
      rw [alikeMembers_cons, alikeMembers_cons, ih hbefore]
    rw [List.cons_append, List.cons_append, hstep, alikeMembers_swap hm]

theorem exists_twin (h : alikeMembers as bs = true) (hn : n ∈ bs) : ∃ m ∈ as, twin m n = true := by
  induction as generalizing bs with
  | nil =>
    rw [alikeMembers, List.isEmpty_iff] at h
    simp [h] at hn
  | cons m as ih =>
    rw [alikeMembers_cons, Bool.and_eq_true] at h
    by_cases hm : twin m n = true
    · exact ⟨m, List.mem_cons_self, hm⟩
    · obtain ⟨m', hm', htwin⟩ := ih h.2 ((List.mem_eraseP_of_neg hm).mpr hn)
      exact ⟨m', List.mem_cons_of_mem _ hm', htwin⟩

section

variable (stable : ∀ m ∈ as, Stable m.1 ∧ Stable m.2)
include stable

theorem apart_of_alikeMembers (h : alikeMembers as bs = true) (hm : m ∈ bs) (hn : n ∈ bs) :
    Apart m n := by
  obtain ⟨m', hm', htwinm⟩ := exists_twin h hm
  obtain ⟨n', hn', htwinn⟩ := exists_twin h hn
  have heqm := twin_eq (stable m' hm').1 (stable m' hm').2 htwinm
  have heqn := twin_eq (stable n' hn').1 (stable n' hn').2 htwinn
  refine or_iff_not_imp_right.mpr fun hboth => ?_
  simp only [not_forall, Bool.not_eq_false] at hboth
  obtain ⟨x, hmx, hnx⟩ := hboth
  rw [heqm] at hmx
  rw [heqn] at hnx
  -- both are equal to `x`
  rw [heqm, heqn, ← twin_eq (stable m' hm').1 (stable m' hm').2 hmx,
    ← twin_eq (stable n' hn').1 (stable n' hn').2 hnx]

theorem alikeMembers_eq (h : alikeMembers as bs = true) : alikeMembers bs = alikeMembers as := by
  induction as generalizing bs with
  | nil =>
    rw [alikeMembers, List.isEmpty_iff] at h
    rw [h]
  | cons m as ih =>
    have happart := fun {x y} => apart_of_alikeMembers (m := x) (n := y) stable h
    obtain ⟨hm, has⟩ := List.forall_mem_cons.mp stable
    rw [alikeMembers_cons, Bool.and_eq_true, List.any_eq_true] at h
    obtain ⟨⟨_, hmem, htwin⟩, hrest⟩ := h
    obtain ⟨n, before, after, -, hn, rfl, herase⟩ := List.exists_of_eraseP hmem htwin
    rw [herase] at hrest
    rw [alikeMembers_middle before after fun x hx => happart (by simp [hx]) (by simp)]
    funext cs
    rw [alikeMembers_cons, alikeMembers_cons, twin_eq hm.1 hm.2 hn, ih has hrest]

end

mutual

theorem stable : (a : Yaml) → Stable a
  | null, b, h | bool _, b, h | integer _, b, h | text _, b, h => by
    cases b <;> simp_all [alike]
  | real _, b, h => by
    cases b with
    | real y =>
      simp only [alike, decide_eq_true_eq] at h
      funext c
      cases c with
      | real z => rw [alike, alike, h]
      | _ => rfl
    | _ => simp [alike] at h
  | sequence as, b, h => by
    cases b with
    | sequence bs =>
      rw [alike] at h
      funext c
      cases c with
      | sequence cs => rw [alike, alike, alikeItems_eq (stable_items as) h]
      | _ => rfl
    | _ => simp [alike] at h
  | mapping as, b, h => by
    cases b with
    | mapping bs =>
      rw [alike] at h
      funext c
      cases c with
      | mapping cs => rw [alike, alike, alikeMembers_eq (stable_members as) h]
      | _ => rfl
    | _ => simp [alike] at h
  | tagged _ a, b, h => by
    cases b with
    | tagged _ b =>
      simp only [alike, Bool.and_eq_true, decide_eq_true_eq] at h
      funext c
      cases c with
      | tagged _ c => rw [alike, alike, h.1, stable a b h.2]
      | _ => rfl
    | _ => simp [alike] at h

theorem stable_items : (as : List Yaml) → ∀ a ∈ as, Stable a
  | [] => nofun
  | a :: as => List.forall_mem_cons.mpr ⟨stable a, stable_items as⟩

theorem stable_members : (as : List (Yaml × Yaml)) → ∀ m ∈ as, Stable m.1 ∧ Stable m.2
  | [] => nofun
  | (k, v) :: as => List.forall_mem_cons.mpr ⟨⟨stable k, stable v⟩, stable_members as⟩

end

theorem alike_eq (h : a.alike b = true) : b.alike = a.alike :=
  stable a b h

theorem alike_symm (h : a.alike b = true) : b.alike a = true := by
  rw [alike_eq h]
  exact alike_refl a

theorem alike_trans (hab : a.alike b = true) (hbc : b.alike c = true) : a.alike c = true := by
  rwa [alike_eq hab] at hbc

end GribCatalog.Yaml
