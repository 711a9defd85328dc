import GribCatalog.Axis.Hashing
import GribCatalog.Proofs.NumericOrder
import GribCatalog.Proofs.Order

/-! The order of values. It is total, only equal values compare as equal, and these are hashed
alike. Within a variant it is the order of what the values mean. -/

namespace GribCatalog

structure TotalOrder {α : Type} (order : α → α → Ordering) : Prop where
  eq_iff : ∀ a b, order a b = .eq ↔ a = b
  swap : ∀ a b, order b a = (order a b).swap
  trans : ∀ a b c, (order a b).isLE → (order b c).isLE → (order a c).isLE

theorem totalOrder_of_cmp {α : Type} (order : α → α → Ordering) [Std.TransCmp order]
    [Std.LawfulEqCmp order] : TotalOrder order where
  eq_iff _ _ := Std.LawfulEqCmp.compare_eq_iff_eq
  swap _ _ := Std.OrientedCmp.eq_swap
  trans _ _ _ := Std.TransCmp.isLE_trans

theorem then_eq_lt_iff {o o' : Ordering} : o.then o' = .lt ↔ o = .lt ∨ o = .eq ∧ o' = .lt := by
  cases o <;> cases o' <;> decide

/-- Levels are equal when their types and the bits of their values are. -/
theorem Level.eq_iff {a b : Level} : a = b ↔ a.kind = b.kind ∧ a.value.word = b.value.word := by
  obtain ⟨_, ⟨_⟩, _, _⟩ := a
  obtain ⟨_, ⟨_⟩, _, _⟩ := b
  simp

namespace AxisValue

theorem hashWords_injective {a b : AxisValue} (h : a.hashWords = b.hashWords) : a = b := by
  -- values of two variants differ in the first word
  cases a <;> cases b <;> try exact absurd (List.cons.inj h).1 (by decide)
  case offset.offset m n =>
    simpa [hashWords, Int64.toInt_inj] using h
  case period.period p q =>
    obtain ⟨hstart, hstop⟩ : p.start = q.start ∧ p.stop = q.stop := by
      simpa [hashWords, Int64.toInt_inj] using h
    exact congrArg period (by cases p; cases q; simp_all)
  case runtime.runtime t u =>
    obtain ⟨hday, hsecond, hnanos⟩ : t.seconds / 86400 = u.seconds / 86400 ∧
        t.seconds % 86400 = u.seconds % 86400 ∧ t.nanos = u.nanos := by
      simpa [hashWords, Int.ofNat_inj] using h
    have hseconds : t.seconds = u.seconds := by omega
    exact congrArg runtime (by cases t; cases u; simp_all)
  case level.level l m =>
    obtain ⟨hkind, hword⟩ : l.kind = m.kind ∧ l.value.word = m.value.word := by
      simpa [hashWords, Int.ofNat_inj, UInt8.toNat_inj, UInt64.toNat_inj] using h
    exact congrArg level (Level.eq_iff.mpr ⟨hkind, hword⟩)
  case member.member l m =>
    obtain ⟨hkind, hnumber⟩ : l.kind = m.kind ∧ l.number = m.number := by
      simpa [hashWords, Int.ofNat_inj, UInt8.toNat_inj, UInt16.toNat_inj] using h
    exact congrArg member (by cases l; cases m; simp_all)
  case integer.integer m n =>
    simpa [hashWords, Int64.toInt_inj] using h
  case text.text s t =>
    have hbytes := List.append_cancel_right (List.cons.inj h).2
    have hdata := List.map_injective_iff.mpr
      (fun b c hbc => UInt8.toNat_inj.mp (Int.ofNat.inj hbc)) hbytes
    exact congrArg text (String.toByteArray_inj.mp (ByteArray.ext (Array.toList_inj.mp hdata)))

/-- Every hasher takes equal values alike, and only equal values are alike to all of them. -/
theorem eq_iff_hashWith {a b : AxisValue} : a = b ↔
    ∀ (σ : Type) (write : σ → Int → σ) (start : σ),
      a.hashWith write start = b.hashWith write start := by
  refine ⟨fun h _ _ _ => h ▸ rfl, fun h => hashWords_injective ?_⟩
  have hwords := h (List Int) (fun words word => word :: words) []
  rw [hashWith, hashWith, List.foldl_flip_cons_eq_append, List.foldl_flip_cons_eq_append] at hwords
  simpa using hwords

/-! ### What values mean -/

theorem order_period_lt_iff {a b : Period} : order (period a) (period b) = .lt ↔
    a.stop < b.stop ∨ a.stop = b.stop ∧ a.start < b.start :=
  then_eq_lt_iff.trans
    (or_congr Std.compare_eq_lt (and_congr Std.compare_eq_iff_eq Std.compare_eq_lt))

theorem order_member_lt_iff {a b : Member} : order (member a) (member b) = .lt ↔
    (a.isControl = true ∧ b.isControl = false) ∨ a.isControl = b.isControl ∧
      (a.number < b.number ∨ a.number = b.number ∧ a.kind < b.kind) := by
  have hcontrol (x y : Bool) : compare y x = .lt ↔ x = true ∧ y = false := by
    cases x <;> cases y <;> decide
  have hsame : compare b.isControl a.isControl = .eq ↔ a.isControl = b.isControl :=
    Std.compare_eq_iff_eq.trans eq_comm
  refine then_eq_lt_iff.trans (or_congr (hcontrol _ _) (and_congr hsame ?_))
  exact then_eq_lt_iff.trans
    (or_congr Std.compare_eq_lt (and_congr Std.compare_eq_iff_eq Std.compare_eq_lt))

theorem order_level_lt_iff {a b : Level} : order (level a) (level b) = .lt ↔
    a.kind < b.kind ∨ a.kind = b.kind ∧ a.value.number < b.value.number := by
  have hnumber := Binary64.number_lt_iff a.isNumber b.isNumber a.zeroIsPositive b.zeroIsPositive
  exact then_eq_lt_iff.trans (or_congr Std.compare_eq_lt
    (and_congr Std.compare_eq_iff_eq (Int.compare_eq_lt.trans hnumber.symm)))

theorem order_level (a b : Level) : order (level a) (level b) =
    (compare a.kind b.kind).then (compare a.value.totalKey b.value.totalKey) := by
  rw [Binary64.compare_totalKey]
  rfl

theorem order_of_variant {a b : AxisValue} (h : a.variant ≠ b.variant) :
    order a b = compare a.variant b.variant := by
  cases a <;> cases b <;> first | rfl | exact absurd rfl h

/-- A surface has a level unless its value is not a number. The level is of the same number, with
a positive zero. -/
theorem ofSurface?_spec (kind : UInt8) (x : Binary64) :
    (ofSurface? kind x = none ↔ x.isNaN = true) ∧
      ∀ v, ofSurface? kind x = some v → ∃ l, v = level l ∧ l.kind = kind ∧
        l.value = x.unsignedZero ∧ l.value.number = x.number := by
  unfold ofSurface? Level.mk?
  split
  · next hnumber =>
    refine ⟨by simp [hnumber], fun v hv => ?_⟩
    cases hv
    exact ⟨_, rfl, rfl, rfl, Binary64.number_unsignedZero x⟩
  · next hnan =>
    refine ⟨by simpa using hnan, fun v hv => ?_⟩
    cases hv

/-- Descending turns the order of the values of a type around and leaves everything else. -/
theorem descendingOrder_level (a b : Level) :
    FieldDimension.descendingOrder (level a) (level b) =
      if a.kind = b.kind then order (level b) (level a) else compare a.kind b.kind := by
  change (compare a.kind b.kind).then (compare b.value.rank a.value.rank) = _
  split
  · next hkind =>
    change _ = (compare b.kind a.kind).then (compare b.value.rank a.value.rank)
    rw [hkind]
  · next hkind =>
    have hne : compare a.kind b.kind ≠ .eq := fun h => hkind (Std.compare_eq_iff_eq.mp h)
    cases hcompare : compare a.kind b.kind with
    | eq => exact absurd hcompare hne
    | lt => rfl
    | gt => rfl

theorem descendingOrder_of_level? {a b : AxisValue} (h : a.level? = none ∨ b.level? = none) :
    FieldDimension.descendingOrder a b = order a b := by
  cases a <;> cases b <;> first | rfl | exact absurd h (by simp [level?])

/-- What is sure of the order of values and of the one with descending levels. Both are total, and
values that compare as equal are hashed alike. Variants come one after another; periods are in the
order of their ends and then their starts, controls come before perturbed members, and levels are
in the order of their types and then of the numbers that their values are. -/
structure Lawful (order descending : AxisValue → AxisValue → Ordering) : Prop where
  total : TotalOrder order
  descendingTotal : TotalOrder descending
  hash : ∀ a b, order a b = .eq ↔ ∀ (σ : Type) (write : σ → Int → σ) (start : σ),
    a.hashWith write start = b.hashWith write start
  variants : ∀ a b, a.variant ≠ b.variant → order a b = compare a.variant b.variant
  periods : ∀ a b, order (period a) (period b) = .lt ↔
    a.stop < b.stop ∨ a.stop = b.stop ∧ a.start < b.start
  members : ∀ a b, order (member a) (member b) = .lt ↔
    (a.isControl = true ∧ b.isControl = false) ∨ a.isControl = b.isControl ∧
      (a.number < b.number ∨ a.number = b.number ∧ a.kind < b.kind)
  levels : ∀ a b, order (level a) (level b) = .lt ↔
    a.kind < b.kind ∨ a.kind = b.kind ∧ a.value.number < b.value.number
  bits : ∀ a b, (level a = level b ↔ a.kind = b.kind ∧ a.value.word = b.value.word) ∧
    order (level a) (level b) =
      (compare a.kind b.kind).then (compare a.value.totalKey b.value.totalKey)
  surfaces : ∀ kind x, (ofSurface? kind x = none ↔ x.isNaN = true) ∧
    ∀ v, ofSurface? kind x = some v → ∃ l, v = level l ∧ l.kind = kind ∧
      l.value = x.unsignedZero ∧ l.value.number = x.number
  reversed : ∀ a b, descending (level a) (level b) =
    if a.kind = b.kind then order (level b) (level a) else compare a.kind b.kind
  unchanged : ∀ a b : AxisValue, a.level? = none ∨ b.level? = none → descending a b = order a b

/-- The order of levels, ascending and descending, is lawful on all values, also of several
variants. -/
theorem order_lawful (kind : Option UInt8) :
    (FieldDimension.vertical kind false).order = order ∧
      Lawful order (FieldDimension.vertical kind true).order where
  left := rfl
  right := {
    total := totalOrder_of_cmp order
    descendingTotal := totalOrder_of_cmp FieldDimension.descendingOrder
    hash := fun a b => Std.LawfulEqCmp.compare_eq_iff_eq.trans eq_iff_hashWith
    variants := fun _ _ => order_of_variant
    periods := fun _ _ => order_period_lt_iff
    members := fun _ _ => order_member_lt_iff
    levels := fun _ _ => order_level_lt_iff
    bits := fun a b => ⟨by rw [AxisValue.level.injEq, Level.eq_iff], order_level a b⟩
    surfaces := ofSurface?_spec
    reversed := descendingOrder_level
    unchanged := fun _ _ => descendingOrder_of_level? }

end AxisValue

end GribCatalog
