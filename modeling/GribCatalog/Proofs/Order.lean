import GribCatalog.Grib.Dimension
import GribCatalog.Proofs.Axis

/-! Total orders on axis values. The order of values and its descending variant
compare variants first, so each is a total order as soon as it is one within
every variant, and only equal values compare as equal. -/

namespace GribCatalog

theorem Binary64.rank_injective {x y : Binary64} (h : x.rank = y.rank) : x = y := by
  have word (z : Binary64) : (z.word.toNat : Int) =
      if z.rank < 0 then 2 ^ 63 - z.rank - 1 else z.rank := by
    have := z.word.toNat_lt
    simp only [rank, isNegative, magnitude, Nat.pow_eq, decide_eq_true_eq]
    split <;> split <;> omega
  have hw : x.word = y.word := by
    apply UInt64.toNat_inj.mp
    have hx := word x
    have hy := word y
    rw [h] at hx
    omega
  cases x
  cases y
  exact congrArg _ hw

instance : Std.TransOrd Period :=
  inferInstanceAs (Std.TransCmp (compareLex (compareOn Period.stop) (compareOn Period.start)))

instance : Std.LawfulEqOrd Period where
  eq_of_compare {a b} h := by
    obtain ⟨hs, ht⟩ := Ordering.then_eq_eq.mp h
    cases a
    cases b
    simp_all

instance : Std.TransOrd Instant :=
  inferInstanceAs (Std.TransCmp (compareLex (compareOn Instant.seconds) (compareOn Instant.nanos)))

instance : Std.LawfulEqOrd Instant where
  eq_of_compare {a b} h := by
    obtain ⟨hs, hn⟩ := Ordering.then_eq_eq.mp h
    cases a
    cases b
    simp_all

theorem Level.ext {a b : Level} (hk : a.kind = b.kind) (hv : a.value.rank = b.value.rank) :
    a = b := by
  have := Binary64.rank_injective hv
  cases a
  cases b
  simp_all

instance : Std.TransOrd Level :=
  inferInstanceAs (Std.TransCmp (compareLex (compareOn Level.kind)
    (compareOn fun l : Level => l.value.rank)))

instance : Std.LawfulEqOrd Level where
  eq_of_compare {a b} h := by
    obtain ⟨hk, hv⟩ := Ordering.then_eq_eq.mp h
    exact Level.ext (Std.LawfulEqOrd.eq_of_compare hk) (Std.LawfulEqOrd.eq_of_compare hv)

def Level.descending (a b : Level) : Ordering :=
  (compare a.kind b.kind).then (compare b.value.rank a.value.rank)

instance : Std.TransCmp Level.descending :=
  inferInstanceAs (Std.TransCmp (compareLex (compareOn Level.kind)
    (fun a b : Level => compareOn (fun l : Level => l.value.rank) b a)))

instance : Std.LawfulEqCmp Level.descending where
  eq_of_compare {a b} h := by
    obtain ⟨hk, hv⟩ := Ordering.then_eq_eq.mp h
    exact Level.ext (Std.LawfulEqOrd.eq_of_compare hk) (Std.LawfulEqOrd.eq_of_compare hv).symm

instance : Std.TransOrd Member :=
  inferInstanceAs (Std.TransCmp (compareLex
    (fun a b : Member => compareOn Member.isControl b a)
    (compareLex (compareOn Member.number) (compareOn Member.kind))))

instance : Std.LawfulEqOrd Member where
  eq_of_compare {a b} h := by
    obtain ⟨-, h⟩ := Ordering.then_eq_eq.mp h
    obtain ⟨hn, hk⟩ := Ordering.then_eq_eq.mp h
    cases a
    cases b
    simp_all

section Ranked

variable {α : Type} (rank : α → Nat) {order : α → α → Ordering}

/-- An order that compares ranks first is transitive as soon as it is so within each rank. -/
theorem transCmp_of_rank (across : ∀ a b, rank a ≠ rank b → order a b = compare (rank a) (rank b))
    (swap : ∀ a b, order a b = (order b a).swap)
    (trans : ∀ a b c, rank a = rank b → rank b = rank c →
      (order a b).isLE → (order b c).isLE → (order a c).isLE) :
    Std.TransCmp order where
  eq_swap {a b} := swap a b
  isLE_trans {a b c} hab hbc := by
    have le (x y : α) (h : (order x y).isLE) : rank x ≤ rank y := by
      by_cases he : rank x = rank y
      · exact Nat.le_of_eq he
      · rw [across x y he] at h
        exact Nat.isLE_compare.mp h
    have h₁ := le a b hab
    have h₂ := le b c hbc
    by_cases hac : rank a = rank c
    · exact trans a b c (by omega) (by omega) hab hbc
    · rw [across a c hac]
      exact Nat.isLE_compare.mpr (by omega)

end Ranked

namespace AxisValue

instance : Std.TransCmp order := by
  apply transCmp_of_rank variant
  · intro a b h
    cases a <;> cases b <;> first | rfl | exact absurd rfl h
  · intro a b
    cases a <;> cases b <;> exact Std.OrientedOrd.eq_swap
  · intro a b c h₁ h₂
    cases a <;> cases b <;> first | (cases h₁; done) | cases c <;>
      first | exact Std.TransOrd.isLE_trans | cases h₂

instance : Std.LawfulEqCmp order where
  eq_of_compare {a b} h := by
    cases a <;> cases b <;>
      first | exact congrArg _ (Std.LawfulEqOrd.eq_of_compare h) | cases h

end AxisValue

namespace FieldDimension

theorem descendingOrder_of_variant {a b : AxisValue} (h : a.variant ≠ b.variant) :
    descendingOrder a b = compare a.variant b.variant := by
  cases a <;> cases b <;> first | rfl | exact absurd rfl h

instance : Std.TransCmp descendingOrder := by
  apply transCmp_of_rank AxisValue.variant
  · exact fun a b => descendingOrder_of_variant
  · intro a b
    cases a <;> cases b <;>
      first
        | exact Std.OrientedOrd.eq_swap
        | exact @Std.OrientedCmp.eq_swap _ Level.descending _ _ _
  · intro a b c h₁ h₂
    cases a <;> cases b <;> first | (cases h₁; done) | cases c <;>
      first
        | exact Std.TransOrd.isLE_trans
        | exact @Std.TransCmp.isLE_trans _ Level.descending _ _ _ _
        | cases h₂

instance : Std.LawfulEqCmp descendingOrder where
  eq_of_compare {a b} h := by
    cases a <;> cases b <;>
      first
        | exact congrArg _ (Std.LawfulEqOrd.eq_of_compare h)
        | exact congrArg _ (@Std.LawfulEqCmp.eq_of_compare _ Level.descending _ _ _ h)
        | cases h

theorem ordered (d : FieldDimension) : d.dimension.Ordered := by
  have values : Std.TransCmp AxisValue.order ∧ Std.LawfulEqCmp AxisValue.order :=
    ⟨inferInstance, inferInstance⟩
  cases d with
  | vertical kind descending =>
    cases descending with
    | true =>
      exact ⟨inferInstanceAs (Std.TransCmp descendingOrder),
        inferInstanceAs (Std.LawfulEqCmp descendingOrder)⟩
    | false => exact ⟨values.1, values.2⟩
  | _ => exact ⟨values.1, values.2⟩

end FieldDimension

end GribCatalog
