import GribCatalog.Catalog.Lookup
import GribCatalog.Proofs.Outcome
import Mathlib.Data.List.Nodup

/-! Queries that are answered. A query is accepted exactly when its pairs give one value to every
axis, in whatever order they come. -/

namespace GribCatalog

namespace Text

variable {cs : List Char}

theorem trim_of_not_blank (h : ∀ c ∈ cs, isBlank c = false) : trim cs = cs := by
  have hstart (ds : List Char) (hds : ∀ c ∈ ds, isBlank c = false) : ds.dropWhile isBlank = ds := by
    cases ds with
    | nil => rfl
    | cons d ds => rw [List.dropWhile_cons_of_neg (by simp [hds d List.mem_cons_self])]
  rw [trim, trimStart, hstart cs h, trimEnd, hstart _ fun c hc => h c (List.mem_reverse.mp hc),
    List.reverse_reverse]

end Text

namespace Space

variable {s : Space} {i : Nat} {a : Axis}

theorem of_axisNamed? {name : String} (h : s.axisNamed? name = some (i, a)) :
    s.axes[i]? = some a ∧ a.name = name := by
  obtain ⟨⟨b, j⟩, hfind, hpair⟩ := Option.map_eq_some_iff.mp h
  cases hpair
  exact ⟨List.mk_mem_zipIdx_iff_getElem?.mp (List.mem_of_find?_eq_some hfind),
    by simpa using List.find?_some hfind⟩

/-- Where names are distinct, an axis is the first of its name. -/
theorem axisNamed?_of_nodup (nodup : (s.axes.map Axis.name).Nodup) (h : s.axes[i]? = some a) :
    s.axisNamed? a.name = some (i, a) := by
  obtain ⟨hi, rfl⟩ := List.getElem?_eq_some_iff.mp h
  refine Option.map_eq_some_iff.mpr ⟨(s.axes[i], i), List.find?_eq_some_iff_getElem.mpr
    ⟨by simp, i, by simpa using hi, by simp, ?_⟩, rfl⟩
  intro j hj
  have hlt : j < s.axes.length := Nat.lt_trans hj hi
  have hne : s.axes[j].name ≠ s.axes[i].name := fun heq =>
    Nat.ne_of_lt hj ((List.getElem?_inj (by simpa using hlt) nodup).mp (by simp [hi, hlt, heq]))
  simpa using hne

end Space

namespace Query

/-- What a pair gives: the place of an axis and a value on it. -/
def reading? (s : Space) (pair : String) : Option (Nat × AxisValue) := do
  let (name, text) ← Text.splitOnce? '=' pair.toList
  let (i, axis) ← s.axisNamed? (String.ofList (Text.trim name))
  let v ← AxisValue.ofText? axis.kind (String.ofList text)
  some (i, v)

variable {s : Space} {given given' : List (Option AxisValue)} {p : String}

theorem addPair_eq_ok_iff : addPair s given p = .ok given' ↔
    ∃ i v, reading? s p = some (i, v) ∧ given.getD i none = none ∧
      given' = given.set i (some v) := by
  simp only [addPair, reading?]
  cases Text.splitOnce? '=' p.toList with
  | none => simp
  | some parts =>
    obtain ⟨name, text⟩ := parts
    simp only [Option.bind_eq_bind, Option.bind_some]
    cases s.axisNamed? (String.ofList (Text.trim name)) with
    | none => simp
    | some named =>
      obtain ⟨i, axis⟩ := named
      simp only [Option.bind_some, AxisValue.ofText]
      cases hgiven : given.getD i none with
      | some v =>
        simp only [Option.isSome_some, if_true, reduceCtorEq, false_iff, not_exists, not_and]
        rintro j v hread hfree
        obtain ⟨w, -, hpair⟩ := Option.bind_eq_some_iff.mp hread
        cases hpair
        rw [hgiven] at hfree
        cases hfree
      | none =>
        cases AxisValue.ofText? axis.kind (String.ofList text) with
        | none => simp [Except.map]
        | some v =>
          rw [List.getD_eq_getElem?_getD] at hgiven
          simp [Except.map, hgiven, eq_comm]

theorem lt_of_reading? {r : Nat × AxisValue} (h : reading? s p = some r) : r.1 < s.rank := by
  obtain ⟨⟨name, text⟩, -, h⟩ := Option.bind_eq_some_iff.mp h
  obtain ⟨⟨i, axis⟩, hnamed, h⟩ := Option.bind_eq_some_iff.mp h
  obtain ⟨v, -, h⟩ := Option.bind_eq_some_iff.mp h
  cases h
  exact (List.getElem?_eq_some_iff.mp (Space.of_axisNamed? hnamed).1).1

def assign (given : List (Option AxisValue)) (readings : List (Nat × AxisValue)) :
    List (Option AxisValue) :=
  readings.foldl (fun given r => given.set r.1 (some r.2)) given

theorem getD_set_eq_none_iff {i j : Nat} {v : AxisValue} (hi : i < given.length) :
    (given.set i (some v)).getD j none = none ↔ j ≠ i ∧ given.getD j none = none := by
  rcases eq_or_ne j i with rfl | h
  · simp [hi]
  · simp [h, Ne.symm h]

/-- Pairs are taken when all of them are read, each for an axis of its own that has no value. -/
theorem foldlM_addPair_eq_ok_iff {pairs : List String} (length : given.length = s.rank) :
    pairs.foldlM (addPair s) given = .ok given' ↔
      (∀ p ∈ pairs, (reading? s p).isSome) ∧
      ((pairs.filterMap (reading? s)).map Prod.fst).Nodup ∧
      (∀ r ∈ pairs.filterMap (reading? s), given.getD r.1 none = none) ∧
      given' = assign given (pairs.filterMap (reading? s)) := by
  induction pairs generalizing given with
  | nil =>
    rw [List.foldlM_nil, @eq_comm _ given']
    simp [assign, pure, Except.pure]
  | cons p pairs ih =>
    rw [List.foldlM_cons, Except.bind_eq_ok_iff, List.forall_mem_cons]
    cases hp : reading? s p with
    | none => simp [addPair_eq_ok_iff, hp]
    | some r =>
      obtain ⟨i, v⟩ := r
      have hi : i < given.length := length ▸ lt_of_reading? hp
      have hlength : (given.set i (some v)).length = s.rank := by rw [List.length_set, length]
      rw [List.filterMap_cons_some hp, List.map_cons, List.nodup_cons, List.forall_mem_cons]
      constructor
      · rintro ⟨taken, htaken, hrest⟩
        obtain ⟨j, w, hread, hfree, rfl⟩ := addPair_eq_ok_iff.mp htaken
        cases hp.symm.trans hread
        obtain ⟨hall, hnodup, hfrees, rfl⟩ := (ih hlength).mp hrest
        -- What is free after the first pair was free before it, and is not its place.
        have hfrees := fun r hr => (getD_set_eq_none_iff hi).mp (hfrees r hr)
        refine ⟨⟨rfl, hall⟩, ⟨?_, hnodup⟩, ⟨hfree, fun r hr => (hfrees r hr).2⟩, rfl⟩
        rintro hmem
        obtain ⟨r, hr, hri⟩ := List.mem_map.mp hmem
        exact (hfrees r hr).1 hri
      · rintro ⟨⟨-, hall⟩, ⟨hnew, hnodup⟩, ⟨hfree, hfrees⟩, rfl⟩
        refine ⟨_, addPair_eq_ok_iff.mpr ⟨i, v, hp, hfree, rfl⟩, (ih hlength).mpr
          ⟨hall, hnodup, fun r hr => (getD_set_eq_none_iff hi).mpr ⟨?_, hfrees r hr⟩, rfl⟩⟩
        rintro rfl
        exact hnew (List.mem_map.mpr ⟨r, hr, rfl⟩)

theorem length_assign (given : List (Option AxisValue)) (readings : List (Nat × AxisValue)) :
    (assign given readings).length = given.length := by
  induction readings generalizing given with
  | nil => rfl
  | cons r readings ih => rw [assign, List.foldl_cons, ← assign, ih, List.length_set]

theorem getElem?_assign {readings : List (Nat × AxisValue)}
    (nodup : (readings.map Prod.fst).Nodup) {i : Nat} {v : AxisValue} (hi : i < given.length) :
    (assign given readings)[i]? = some (some v) ↔
      (i, v) ∈ readings ∨ i ∉ readings.map Prod.fst ∧ given[i]? = some (some v) := by
  induction readings generalizing given with
  | nil => simp [assign]
  | cons r readings ih =>
    obtain ⟨j, w⟩ := r
    rw [List.map_cons, List.nodup_cons] at nodup
    rw [assign, List.foldl_cons, ← assign, ih nodup.2 (by simpa using hi)]
    rcases eq_or_ne i j with rfl | hne
    · have hnew : (i, v) ∉ readings := fun h => nodup.1 (List.mem_map.mpr ⟨(i, v), h, rfl⟩)
      simp [hi, nodup.1, hnew, eq_comm]
    · simp [hne, Ne.symm hne]

theorem complete_eq_ok_iff {axes : List Axis} {values : List AxisValue}
    (length : given.length = axes.length) :
    complete axes given = .ok values ↔ given = values.map some := by
  induction axes generalizing given values with
  | nil =>
    obtain rfl := List.length_eq_zero_iff.mp length
    cases values <;> simp [complete, pure, Except.pure]
  | cons a axes ih =>
    obtain ⟨v, given, rfl⟩ := List.exists_cons_of_length_eq_add_one length
    rw [complete, List.zip_cons_cons, List.mapM_cons, ← complete]
    cases v with
    | none => cases values <;> simp [Except.bind_eq_ok_iff]
    | some v =>
      cases values with
      | nil => simp [Except.bind_eq_ok_iff, pure, Except.pure]
      | cons w values =>
        simp [Except.bind_eq_ok_iff, pure, Except.pure, ih (Nat.succ.inj length), and_comm]

/-- Places from the first on, each with the value at it. -/
def placed (values : List AxisValue) : List (Nat × AxisValue) :=
  values.zipIdx.map Prod.swap

theorem mem_placed {values : List AxisValue} {i : Nat} {v : AxisValue} :
    (i, v) ∈ placed values ↔ values[i]? = some v := by
  rw [← List.mk_mem_zipIdx_iff_getElem?, placed, List.mem_map]
  constructor
  · rintro ⟨⟨w, j⟩, hmem, hswap⟩
    cases hswap
    exact hmem
  · exact fun hmem => ⟨_, hmem, rfl⟩

theorem nodup_placed (values : List AxisValue) : ((placed values).map Prod.fst).Nodup := by
  rw [placed, List.map_map, show Prod.fst ∘ Prod.swap = @Prod.snd AxisValue Nat from rfl,
    List.zipIdx_map_snd]
  exact List.nodup_range'

/-- Every axis has a value when the readings are one for each axis. -/
theorem assign_eq_map_some_iff {n : Nat} {readings : List (Nat × AxisValue)}
    {values : List AxisValue} (nodup : (readings.map Prod.fst).Nodup)
    (bound : ∀ r ∈ readings, r.1 < n) :
    assign (List.replicate n none) readings = values.map some ↔
      values.length = n ∧ readings.Perm (placed values) := by
  have hlength := (length_assign (List.replicate n none) readings).trans List.length_replicate
  have hmem {i : Nat} {v : AxisValue} (hi : i < n) :
      (assign (List.replicate n none) readings)[i]? = some (some v) ↔ (i, v) ∈ readings := by
    rw [getElem?_assign nodup (by rwa [List.length_replicate])]
    simp [hi]
  constructor
  · intro h
    have hvalues : values.length = n := by rw [← hlength, h, List.length_map]
    refine ⟨hvalues, (List.perm_ext_iff_of_nodup nodup.of_map (nodup_placed values).of_map).mpr ?_⟩
    rintro ⟨i, v⟩
    rw [mem_placed]
    by_cases hi : i < n
    · rw [← hmem hi, h, List.getElem?_map]
      simp
    · rw [List.getElem?_eq_none (by omega)]
      simpa using fun hr => hi (bound _ hr)
  · rintro ⟨hvalues, hperm⟩
    refine List.ext_getElem? fun i => ?_
    by_cases hi : i < n
    · have hv : values[i]? = some values[i] := List.getElem?_eq_getElem (hvalues ▸ hi)
      rw [(hmem hi).mpr (hperm.mem_iff.mpr (mem_placed.mpr hv)), List.getElem?_map, hv]
      rfl
    · rw [List.getElem?_eq_none (by omega), List.getElem?_eq_none (by simp; omega)]

/-- A query comes to some values exactly when its pairs, in any order, are read as one of them for
each axis. -/
theorem values_eq_ok_iff {pairs : List String} {values : List AxisValue} :
    Query.values s pairs = .ok values ↔
      values.length = s.rank ∧ (∀ p ∈ pairs, (reading? s p).isSome) ∧
      (pairs.filterMap (reading? s)).Perm (placed values) := by
  have hnone : (List.replicate s.rank (none : Option AxisValue)).length = s.rank :=
    List.length_replicate
  have hbound (r : Nat × AxisValue) (hr : r ∈ pairs.filterMap (reading? s)) : r.1 < s.rank := by
    obtain ⟨p, -, hp⟩ := List.mem_filterMap.mp hr
    exact lt_of_reading? hp
  rw [Query.values, Except.bind_eq_ok_iff]
  constructor
  · rintro ⟨given, hgiven, hcomplete⟩
    obtain ⟨hall, hnodup, -, rfl⟩ := (foldlM_addPair_eq_ok_iff hnone).mp hgiven
    rw [complete_eq_ok_iff ((length_assign _ _).trans hnone),
      assign_eq_map_some_iff hnodup hbound] at hcomplete
    exact ⟨hcomplete.1, hall, hcomplete.2⟩
  · rintro ⟨hrank, hall, hperm⟩
    have hnodup := (hperm.map Prod.fst).nodup_iff.mpr (nodup_placed values)
    refine ⟨_, (foldlM_addPair_eq_ok_iff hnone).mpr ⟨hall, hnodup, fun r _ => ?_, rfl⟩, ?_⟩
    · rw [List.getD_eq_getElem?_getD, List.getElem?_replicate]
      split <;> rfl
    · rw [complete_eq_ok_iff ((length_assign _ _).trans hnone),
        assign_eq_map_some_iff hnodup hbound]
      exact ⟨hrank, hperm⟩

/-! ### Printed values -/

def pair (a : Axis) (v : AxisValue) : String :=
  a.name ++ "=" ++ v.display

/-- A name that a pair can hold: no blanks are trimmed from it, and it does not end early. -/
def IsWord (name : String) : Prop :=
  ∀ c ∈ name.toList, Text.isBlank c = false ∧ c ≠ '='

theorem reading?_pair {a : Axis} (hname : IsWord a.name) (v : AxisValue) :
    reading? s (pair a v) = (s.axisNamed? a.name).bind fun (i, b) =>
      (AxisValue.ofText? b.kind v.display).map fun w => (i, w) := by
  have hsplit : Text.splitOnce? '=' (pair a v).toList = some (a.name.toList, v.display.toList) := by
    have := Text.splitOnce?_append (fun h => (hname '=' h).2 rfl) v.display.toList
    simpa [pair] using this
  rw [reading?, hsplit]
  have htrim := Text.trim_of_not_blank fun c hc => (hname c hc).1
  simp only [Option.bind_eq_bind, Option.bind_some, htrim, String.ofList_toList]
  cases s.axisNamed? a.name with
  | none => rfl
  | some named => cases h : AxisValue.ofText? named.2.kind v.display <;> simp [h]

section Printed

variable {values : List AxisValue} {pairs : List String}

def place (s : Space) (name : String) : Nat :=
  ((s.axisNamed? name).map Prod.fst).getD 0

theorem map_fst_readings {axes : List Axis} (words : ∀ a ∈ axes, IsWord a.name)
    (length : values.length = axes.length)
    (hall : ∀ p ∈ List.zipWith pair axes values, (reading? s p).isSome) :
    ((List.zipWith pair axes values).filterMap (reading? s)).map Prod.fst =
      (axes.map Axis.name).map (place s) := by
  induction axes generalizing values with
  | nil => rfl
  | cons a axes ih =>
    obtain ⟨v, values, rfl⟩ := List.exists_cons_of_length_eq_add_one length
    rw [List.zipWith_cons_cons, List.forall_mem_cons] at hall
    rw [List.forall_mem_cons] at words
    obtain ⟨⟨i, w⟩, hread⟩ := Option.isSome_iff_exists.mp hall.1
    have hplace : place s a.name = i := by
      rw [reading?_pair words.1] at hread
      obtain ⟨⟨j, b⟩, hnamed, hread⟩ := Option.bind_eq_some_iff.mp hread
      obtain ⟨w, -, hpair⟩ := Option.map_eq_some_iff.mp hread
      cases hpair
      rw [place, hnamed]
      rfl
    rw [List.zipWith_cons_cons, List.filterMap_cons_some hread, List.map_cons, List.map_cons,
      List.map_cons, hplace, ih words.2 (Nat.succ.inj length) hall.2]

theorem reading?_of_nodup (words : ∀ a ∈ s.axes, IsWord a.name)
    (nodup : (s.axes.map Axis.name).Nodup) {i : Nat} {a : Axis} (ha : s.axes[i]? = some a)
    (v : AxisValue) :
    reading? s (pair a v) = (AxisValue.ofText? a.kind v.display).map fun w => (i, w) := by
  rw [reading?_pair (words a (List.mem_of_getElem? ha)), Space.axisNamed?_of_nodup nodup ha]
  rfl

/-- The pairs of some values come to these values when names are distinct and every text is read
as its value. -/
theorem values_printed (words : ∀ a ∈ s.axes, IsWord a.name) (length : values.length = s.rank)
    (hpairs : pairs.Perm (List.zipWith pair s.axes values))
    (nodup : (s.axes.map Axis.name).Nodup)
    (hread : ∀ q ∈ s.axes.zip values, AxisValue.ofText? q.1.kind q.2.display = some q.2) :
    Query.values s pairs = .ok values := by
  have hmap : (List.zipWith pair s.axes values).map (reading? s) = (placed values).map some := by
    refine List.ext_getElem? fun i => ?_
    rw [List.getElem?_map, List.getElem?_map, List.getElem?_zipWith, placed, List.getElem?_map,
      List.getElem?_zipIdx]
    cases ha : s.axes[i]? with
    | none =>
      rw [List.getElem?_eq_none_iff] at ha
      rw [List.getElem?_eq_none (length ▸ ha)]
      rfl
    | some a =>
      cases hv : values[i]? with
      | none => rfl
      | some v =>
        have hq : (a, v) ∈ s.axes.zip values :=
          List.mem_of_getElem? (List.getElem?_zip_eq_some.mpr ⟨ha, hv⟩)
        simp [reading?_of_nodup words nodup ha, hread _ hq]
  have hreadings : (List.zipWith pair s.axes values).filterMap (reading? s) = placed values := by
    rw [← Function.id_comp (reading? s), ← List.filterMap_map, hmap, List.filterMap_map]
    exact List.filterMap_some
  refine values_eq_ok_iff.mpr ⟨length, fun p hp => ?_, hreadings ▸ hpairs.filterMap (reading? s)⟩
  obtain ⟨r, -, hr⟩ := List.mem_map.mp (hmap ▸ List.mem_map_of_mem (hpairs.mem_iff.mp hp))
  rw [← hr]
  rfl

theorem of_values_printed (words : ∀ a ∈ s.axes, IsWord a.name) (length : values.length = s.rank)
    (hpairs : pairs.Perm (List.zipWith pair s.axes values)) {found : List AxisValue}
    (h : Query.values s pairs = .ok found) :
    (s.axes.map Axis.name).Nodup ∧
      ∀ q ∈ s.axes.zip values, (AxisValue.ofText? q.1.kind q.2.display).isSome := by
  obtain ⟨-, hall, hperm⟩ := values_eq_ok_iff.mp h
  have hall (p : String) (hp : p ∈ List.zipWith pair s.axes values) : (reading? s p).isSome :=
    hall p (hpairs.mem_iff.mpr hp)
  -- The pairs of two axes of one name are read for one place, but no place is read twice.
  have nodup : (s.axes.map Axis.name).Nodup := by
    have hreadings := ((hpairs.filterMap (reading? s)).symm.trans hperm).map Prod.fst
    have hplaces := hreadings.nodup_iff.mpr (nodup_placed found)
    rw [map_fst_readings words length hall] at hplaces
    exact hplaces.of_map
  refine ⟨nodup, fun q hq => ?_⟩
  obtain ⟨i, hi⟩ := List.getElem?_of_mem hq
  obtain ⟨ha, hv⟩ := List.getElem?_zip_eq_some.mp hi
  have hpair : pair q.1 q.2 ∈ List.zipWith pair s.axes values :=
    List.mem_of_getElem? (List.getElem?_zipWith_eq_some.mpr ⟨_, _, ha, hv, rfl⟩)
  have hread := hall _ hpair
  rwa [reading?_of_nodup words nodup ha, Option.isSome_map] at hread

end Printed

end Query

end GribCatalog
