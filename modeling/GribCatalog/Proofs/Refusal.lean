import GribCatalog.Proofs.Query
import Mathlib.Data.List.Induction

/-! Queries that are taken and queries that are refused. Read from the left, the pairs of a query
are sound as long as each names an axis that no earlier one has named and gives it a text that is
read; the first that does not is what the query is refused for. A sound query is refused only for
the first axis that it does not name. -/

namespace GribCatalog

theorem Space.axisNamed?_eq_none_iff {s : Space} {name : String} :
    s.axisNamed? name = none ↔ ∀ a ∈ s.axes, a.name ≠ name := by
  rw [axisNamed?, Option.map_eq_none_iff, List.find?_eq_none]
  constructor
  · intro h a ha
    obtain ⟨i, hi⟩ := List.getElem?_of_mem ha
    simpa using h (a, i) (List.mk_mem_zipIdx_iff_getElem?.mpr hi)
  · rintro h ⟨a, i⟩ hai
    have ha := List.mem_of_getElem? (List.mk_mem_zipIdx_iff_getElem?.mp hai)
    simpa using h a ha

namespace Query

/-- The pair is `name=text`. Its name is what stands before its first `=`, without outer blanks. -/
def Gives (pair name text : String) : Prop :=
  ∃ front, '=' ∉ front ∧ pair.toList = front ++ '=' :: text.toList ∧
    name = String.ofList (Text.trim front)

def Names (pair name : String) : Prop :=
  ∃ text, Gives pair name text

/-- What a pair is refused for after the pairs that stand before it. It is checked for its `=`, for
its name, for a repetition and for its text, in this order. -/
inductive Offends (s : Space) (earlier : List String) (p : String) : QueryFault → Prop
  | noEquals : '=' ∉ p.toList → Offends s earlier p (.noEquals p)
  | unknownDimension {name : String} :
      Names p name → (∀ a ∈ s.axes, a.name ≠ name) → Offends s earlier p (.unknownDimension name)
  | repeated {a : Axis} :
      Names p a.name → a ∈ s.axes → (∃ q ∈ earlier, Names q a.name) →
        Offends s earlier p (.repeated a.name)
  | invalidValue {a : Axis} {text : String} :
      Gives p a.name text → a ∈ s.axes → (∀ q ∈ earlier, ¬ Names q a.name) →
        AxisValue.ofText? a.kind text = none →
        Offends s earlier p (.invalidValue a.kind (String.ofList (Text.trim text.toList)))

/-- No pair offends after the ones before it. -/
def Sound (s : Space) (pairs : List String) : Prop :=
  ∀ earlier p later, pairs = earlier ++ p :: later → ∀ fault, ¬ Offends s earlier p fault

structure Answerable (s : Space) (pairs : List String) : Prop where
  read : ∀ p ∈ pairs, ∃ a ∈ s.axes, ∃ text v,
    Gives p a.name text ∧ AxisValue.ofText a.kind text = .ok v
  once : pairs.Pairwise fun p q => ∀ name, Names p name → ¬ Names q name
  every : ∀ a ∈ s.axes, ∃ p ∈ pairs, Names p a.name

inductive Refused (s : Space) (pairs : List String) : QueryFault → Prop
  | offended {earlier later : List String} {p : String} {fault : QueryFault} :
      pairs = earlier ++ p :: later → Sound s earlier → Offends s earlier p fault →
        Refused s pairs fault
  | incomplete {i : Nat} {a : Axis} :
      Sound s pairs → s.axes[i]? = some a → (∀ p ∈ pairs, ¬ Names p a.name) →
        (∀ j b, j < i → s.axes[j]? = some b → ∃ p ∈ pairs, Names p b.name) →
        Refused s pairs (.incomplete a.name)

/-! ### A pair -/

section Pair

variable {s : Space} {p name name' text text' : String}

theorem gives_iff : Gives p name text ↔ ∃ front,
    Text.splitOnce? '=' p.toList = some (front, text.toList) ∧
      name = String.ofList (Text.trim front) := by
  simp only [Gives, Text.splitOnce?_eq_some_iff, and_assoc]

theorem Gives.unique (h : Gives p name text) (h' : Gives p name' text') :
    name' = name ∧ text' = text := by
  obtain ⟨front, hsplit, rfl⟩ := gives_iff.mp h
  obtain ⟨front', hsplit', rfl⟩ := gives_iff.mp h'
  rw [hsplit] at hsplit'
  obtain ⟨rfl, htext⟩ := Prod.mk.inj (Option.some.inj hsplit')
  exact ⟨rfl, (String.toList_inj.mp htext).symm⟩

theorem Names.unique (h : Names p name) (h' : Names p name') : name' = name :=
  let ⟨_, h⟩ := h
  let ⟨_, h'⟩ := h'
  (h.unique h').1

theorem Gives.mem (h : Gives p name text) : '=' ∈ p.toList := by
  obtain ⟨front, -, hp, -⟩ := h
  simp [hp]

theorem exists_gives (h : '=' ∈ p.toList) : ∃ name text, Gives p name text := by
  obtain ⟨front, rest, hp, hfront⟩ := List.eq_append_cons_of_mem h
  exact ⟨_, String.ofList rest, front, hfront, by simpa using hp, rfl⟩

theorem gives_of_reading? {i : Nat} {v : AxisValue} (h : reading? s p = some (i, v)) :
    ∃ a text, s.axes[i]? = some a ∧ Gives p a.name text ∧
      AxisValue.ofText? a.kind text = some v := by
  obtain ⟨⟨front, rest⟩, hsplit, h⟩ := Option.bind_eq_some_iff.mp h
  obtain ⟨⟨j, a⟩, hnamed, h⟩ := Option.bind_eq_some_iff.mp h
  obtain ⟨w, hread, hpair⟩ := Option.bind_eq_some_iff.mp h
  cases hpair
  obtain ⟨ha, hname⟩ := Space.of_axisNamed? hnamed
  exact ⟨a, String.ofList rest, ha, gives_iff.mpr ⟨front, by simpa using hsplit, hname⟩, hread⟩

variable {given given' : List (Option AxisValue)} {fault : QueryFault}

theorem addPair_of_not_mem (h : '=' ∉ p.toList) :
    addPair s given p = .error (.noEquals p) := by
  rw [addPair, Text.splitOnce?_eq_none_iff.mpr h]

theorem addPair_of_unknown (h : Gives p name text) (hname : ∀ a ∈ s.axes, a.name ≠ name) :
    addPair s given p = .error (.unknownDimension name) := by
  obtain ⟨front, hsplit, rfl⟩ := gives_iff.mp h
  simp only [addPair, hsplit, Space.axisNamed?_eq_none_iff.mpr hname]

theorem addPair_of_gives (nodup : (s.axes.map Axis.name).Nodup) {i : Nat} {a : Axis}
    (ha : s.axes[i]? = some a) (h : Gives p a.name text) :
    addPair s given p =
      if (given.getD i none).isSome then .error (.repeated a.name)
      else (AxisValue.ofText a.kind text).map fun v => given.set i (some v) := by
  obtain ⟨front, hsplit, hname⟩ := gives_iff.mp h
  simp only [addPair, hsplit, ← hname, Space.axisNamed?_of_nodup nodup ha, String.ofList_toList]

end Pair

/-! ### The pairs from left to right -/

structure Holds (s : Space) (pairs : List String) (given : List (Option AxisValue)) : Prop where
  length : given.length = s.rank
  empty : ∀ i a, s.axes[i]? = some a → (given.getD i none = none ↔ ∀ p ∈ pairs, ¬ Names p a.name)
  value : ∀ i a v, s.axes[i]? = some a → given.getD i none = some v →
    ∀ p ∈ pairs, ∀ text, Gives p a.name text → AxisValue.ofText? a.kind text = some v

section Run

variable {s : Space} {pairs earlier : List String} {p : String} {fault : QueryFault}
  {given given' : List (Option AxisValue)}

theorem Holds.nil : Holds s [] (List.replicate s.rank none) := by
  have hnone (i : Nat) : (List.replicate s.rank (none : Option AxisValue)).getD i none = none := by
    rw [List.getD_eq_getElem?_getD, List.getElem?_replicate]
    split <;> rfl
  refine ⟨List.length_replicate, fun i a _ => ?_, fun i a v _ h => ?_⟩
  · exact ⟨fun _ p hp => absurd hp List.not_mem_nil, fun _ => hnone i⟩
  · cases (hnone i).symm.trans h

/-- A pair is taken unless it offends. -/
theorem Holds.addPair_eq_error_iff (nodup : (s.axes.map Axis.name).Nodup)
    (h : Holds s earlier given) :
    addPair s given p = .error fault ↔ Offends s earlier p fault := by
  constructor
  · intro herror
    -- the cases are in the order of the checks, each inside those that were passed
    by_cases hequals : '=' ∈ p.toList
    · obtain ⟨name, text, hgives⟩ := exists_gives hequals
      by_cases hknown : ∃ a ∈ s.axes, a.name = name
      · obtain ⟨a, hmem, rfl⟩ := hknown
        obtain ⟨i, ha⟩ := List.getElem?_of_mem hmem
        rw [addPair_of_gives nodup ha hgives] at herror
        by_cases hfree : given.getD i none = none
        · rw [hfree, if_neg (by simp), AxisValue.ofText] at herror
          cases hread : AxisValue.ofText? a.kind text with
          | some v => simp [hread, Except.map] at herror
          | none =>
            rw [hread] at herror
            cases herror
            exact .invalidValue hgives hmem ((h.empty i a ha).mp hfree) hread
        · rw [if_pos (Option.isSome_iff_ne_none.mpr hfree)] at herror
          cases herror
          rw [h.empty i a ha] at hfree
          push Not at hfree
          exact .repeated ⟨text, hgives⟩ hmem hfree
      · push Not at hknown
        rw [addPair_of_unknown hgives hknown] at herror
        cases herror
        exact .unknownDimension ⟨text, hgives⟩ hknown
    · rw [addPair_of_not_mem hequals] at herror
      cases herror
      exact .noEquals hequals
  · rintro (hequals | ⟨⟨text, hgives⟩, hunknown⟩ | ⟨⟨text, hgives⟩, hmem, hnamed⟩ |
      ⟨hgives, hmem, hfree, hread⟩)
    · exact addPair_of_not_mem hequals
    · exact addPair_of_unknown hgives hunknown
    · obtain ⟨i, ha⟩ := List.getElem?_of_mem hmem
      have hfilled : given.getD i none ≠ none := by
        rw [ne_eq, h.empty i _ ha]
        push Not
        exact hnamed
      rw [addPair_of_gives nodup ha hgives, if_pos (Option.isSome_iff_ne_none.mpr hfilled)]
    · obtain ⟨i, ha⟩ := List.getElem?_of_mem hmem
      rw [addPair_of_gives nodup ha hgives, (h.empty i _ ha).mpr hfree, if_neg (by simp),
        AxisValue.ofText, hread]
      rfl

theorem Holds.concat (nodup : (s.axes.map Axis.name).Nodup) (h : Holds s earlier given)
    (hp : addPair s given p = .ok given') : Holds s (earlier ++ [p]) given' := by
  obtain ⟨i, v, hread, hfree, rfl⟩ := addPair_eq_ok_iff.mp hp
  obtain ⟨a, text, ha, hgives, hvalue⟩ := gives_of_reading? hread
  have hi : i < given.length := h.length ▸ lt_of_reading? hread
  have hself : (given.set i (some v)).getD i none = some v := by simp [hi]
  -- The pair names no other axis, and leaves the places of the others alone.
  have hother {j : Nat} {b : Axis} (hb : s.axes[j]? = some b) (hji : j ≠ i) :
      (given.set i (some v)).getD j none = given.getD j none ∧ ¬ Names p b.name := by
    refine ⟨by simp [Ne.symm hji], fun hnames => hji ?_⟩
    have hname : b.name = a.name := Names.unique ⟨text, hgives⟩ hnames
    have hj : j < (s.axes.map Axis.name).length := by
      simpa using (List.getElem?_eq_some_iff.mp hb).1
    exact (List.getElem?_inj hj nodup).mp (by simp [ha, hb, hname])
  refine ⟨by rw [List.length_set, h.length], fun j b hb => ?_, fun j b w hb hw q hq text' hq' => ?_⟩
  · rcases eq_or_ne j i with rfl | hji
    · cases ha.symm.trans hb
      rw [hself]
      simp only [reduceCtorEq, false_iff, not_forall, not_not]
      exact ⟨p, by simp, text, hgives⟩
    · rw [(hother hb hji).1, h.empty j b hb, List.forall_mem_append, List.forall_mem_singleton]
      exact (and_iff_left (hother hb hji).2).symm
  · rcases eq_or_ne j i with rfl | hji
    · cases ha.symm.trans hb
      cases hself.symm.trans hw
      rcases List.mem_append.mp hq with hq | hq
      · exact absurd ⟨text', hq'⟩ ((h.empty j a ha).mp hfree q hq)
      · obtain rfl := List.mem_singleton.mp hq
        rwa [(hgives.unique hq').2]
    · rw [(hother hb hji).1] at hw
      rcases List.mem_append.mp hq with hq | hq
      · exact h.value j b w hb hw q hq text' hq'
      · obtain rfl := List.mem_singleton.mp hq
        exact absurd ⟨text', hq'⟩ (hother hb hji).2

theorem sound_concat_iff :
    Sound s (pairs ++ [p]) ↔ Sound s pairs ∧ ∀ fault, ¬ Offends s pairs p fault := by
  constructor
  · intro h
    exact ⟨fun earlier q later hpairs => h earlier q (later ++ [p]) (by simp [hpairs]),
      h pairs p [] rfl⟩
  · rintro ⟨hpairs, hp⟩ earlier q later hsplit
    rcases List.eq_nil_or_concat later with rfl | ⟨later, r, rfl⟩
    · obtain ⟨rfl, hpq⟩ := List.append_inj' hsplit rfl
      cases hpq
      exact hp
    · rw [List.concat_eq_append, ← List.cons_append, ← List.append_assoc] at hsplit
      exact hpairs earlier q later (List.append_inj' hsplit rfl).1

/-- Pairs that are all taken are sound, and what is given is what they give. -/
theorem of_foldlM_addPair (nodup : (s.axes.map Axis.name).Nodup)
    (h : pairs.foldlM (addPair s) (List.replicate s.rank none) = .ok given) :
    Sound s pairs ∧ Holds s pairs given := by
  -- on the last pair, which is checked against all the others
  induction pairs using List.reverseRecOn generalizing given with
  | nil =>
    cases h
    exact ⟨fun earlier p later hsplit => by simp at hsplit, .nil⟩
  | append_singleton pairs p ih =>
    obtain ⟨before, hbefore, hp⟩ := Except.foldlM_concat_eq_ok_iff.mp h
    obtain ⟨hsound, hholds⟩ := ih hbefore
    refine ⟨sound_concat_iff.mpr ⟨hsound, fun fault hoffends => ?_⟩, hholds.concat nodup hp⟩
    cases ((hholds.addPair_eq_error_iff nodup).mpr hoffends).symm.trans hp

theorem Sound.exists_given (nodup : (s.axes.map Axis.name).Nodup) (h : Sound s pairs) :
    ∃ given, pairs.foldlM (addPair s) (List.replicate s.rank none) = .ok given ∧
      Holds s pairs given := by
  cases hrun : pairs.foldlM (addPair s) (List.replicate s.rank none) with
  | ok given => exact ⟨given, rfl, (of_foldlM_addPair nodup hrun).2⟩
  | error fault =>
    obtain ⟨earlier, p, later, given, hsplit, hearlier, hp⟩ :=
      Except.foldlM_eq_error_iff.mp hrun
    have hholds := (of_foldlM_addPair nodup hearlier).2
    exact absurd ((hholds.addPair_eq_error_iff nodup).mp hp) (h earlier p later hsplit fault)

theorem foldlM_addPair_eq_error_iff (nodup : (s.axes.map Axis.name).Nodup) :
    pairs.foldlM (addPair s) (List.replicate s.rank none) = .error fault ↔
      ∃ earlier p later, pairs = earlier ++ p :: later ∧ Sound s earlier ∧
        Offends s earlier p fault := by
  rw [Except.foldlM_eq_error_iff]
  constructor
  · rintro ⟨earlier, p, later, given, hsplit, hrun, herror⟩
    obtain ⟨hsound, hholds⟩ := of_foldlM_addPair nodup hrun
    exact ⟨earlier, p, later, hsplit, hsound, (hholds.addPair_eq_error_iff nodup).mp herror⟩
  · rintro ⟨earlier, p, later, hsplit, hsound, hoffends⟩
    obtain ⟨given, hrun, hholds⟩ := hsound.exists_given nodup
    exact ⟨earlier, p, later, given, hsplit, hrun, (hholds.addPair_eq_error_iff nodup).mpr hoffends⟩

theorem not_offends_iff (nodup : (s.axes.map Axis.name).Nodup) :
    (∀ fault, ¬ Offends s earlier p fault) ↔
      (∃ a ∈ s.axes, ∃ text v, Gives p a.name text ∧ AxisValue.ofText a.kind text = .ok v) ∧
      ∀ q ∈ earlier, ∀ name, Names q name → ¬ Names p name := by
  constructor
  · intro h
    have hequals : '=' ∈ p.toList := by
      by_contra hequals
      exact h _ (.noEquals hequals)
    obtain ⟨name, text, hgives⟩ := exists_gives hequals
    have hknown : ∃ a ∈ s.axes, a.name = name := by
      by_contra hknown
      push Not at hknown
      exact h _ (.unknownDimension ⟨text, hgives⟩ hknown)
    obtain ⟨a, ha, rfl⟩ := hknown
    have hnew (q : String) (hq : q ∈ earlier) : ¬ Names q a.name := fun hnamed =>
      h _ (.repeated ⟨text, hgives⟩ ha ⟨q, hq, hnamed⟩)
    refine ⟨⟨a, ha, text, ?_⟩, fun q hq name hnamed hp => ?_⟩
    · cases hread : AxisValue.ofText? a.kind text with
      | none => exact absurd (.invalidValue hgives ha hnew hread) (h _)
      | some v => exact ⟨v, hgives, by rw [AxisValue.ofText, hread]⟩
    · obtain rfl := Names.unique ⟨text, hgives⟩ hp
      exact hnew q hq hnamed
  · rintro ⟨⟨a, ha, text, v, hgives, hread⟩, hnew⟩ fault hoffends
    rcases hoffends with hequals | ⟨hnames, hunknown⟩ | ⟨hnames, -, q, hq, hnamed⟩ |
      @⟨b, text', hgives', hb, -, hunread⟩
    · exact hequals hgives.mem
    · exact hunknown a ha (hnames.unique ⟨text, hgives⟩)
    · exact hnew q hq _ hnamed hnames
    · obtain ⟨hname, rfl⟩ := hgives.unique hgives'
      obtain rfl := List.inj_on_of_nodup_map nodup hb ha hname
      rw [AxisValue.ofText, hunread] at hread
      cases hread

theorem sound_iff (nodup : (s.axes.map Axis.name).Nodup) : Sound s pairs ↔
    (∀ p ∈ pairs, ∃ a ∈ s.axes, ∃ text v,
      Gives p a.name text ∧ AxisValue.ofText a.kind text = .ok v) ∧
    pairs.Pairwise fun p q => ∀ name, Names p name → ¬ Names q name := by
  induction pairs using List.reverseRecOn with
  | nil => simp [Sound]
  | append_singleton pairs p ih =>
    rw [sound_concat_iff, ih, not_offends_iff nodup, List.pairwise_append, List.forall_mem_append,
      and_and_and_comm]
    simp only [List.forall_mem_singleton, List.pairwise_singleton, true_and]

end Run

theorem complete_eq_error_iff {axes : List Axis} {given : List (Option AxisValue)}
    {fault : QueryFault} (length : given.length = axes.length) :
    complete axes given = .error fault ↔
      ∃ i a, axes[i]? = some a ∧ given.getD i none = none ∧
        (∀ j < i, given.getD j none ≠ none) ∧ fault = .incomplete a.name := by
  induction axes generalizing given with
  | nil => simp [complete, pure, Except.pure]
  | cons a axes ih =>
    obtain ⟨v, given, rfl⟩ := List.exists_cons_of_length_eq_add_one length
    rw [complete, List.zip_cons_cons, List.mapM_cons, ← complete]
    cases v with
    | none =>
      simp only [Except.bind_eq_error_iff]
      constructor
      · rintro (herror | ⟨v, hok, -⟩)
        · cases herror
          exact ⟨0, a, rfl, rfl, by simp, rfl⟩
        · cases hok
      · rintro ⟨i, b, hb, -, hbefore, rfl⟩
        cases i with
        | zero =>
          cases hb
          exact .inl rfl
        | succ i => exact absurd rfl (hbefore 0 (Nat.succ_pos i))
    | some v =>
      simp only [Except.bind_eq_error_iff, pure, Except.pure, ih (Nat.succ.inj length)]
      constructor
      · rintro (herror | ⟨w, -, ⟨i, b, hb, hempty, hbefore, rfl⟩ | ⟨ws, -, herror⟩⟩)
        · cases herror
        · refine ⟨i + 1, b, hb, hempty, fun j hj => ?_, rfl⟩
          cases j with
          | zero => simp
          | succ j => exact hbefore j (by omega)
        · cases herror
      · rintro ⟨i, b, hb, hempty, hbefore, rfl⟩
        cases i with
        | zero => cases hempty
        | succ i =>
          exact .inr ⟨v, rfl, .inl ⟨i, b, hb, hempty,
            fun j hj => hbefore (j + 1) (by omega), rfl⟩⟩

/-! ### The whole query -/

section Values

variable {s : Space} {pairs : List String} {values : List AxisValue} {fault : QueryFault}

theorem values_eq_error_iff (nodup : (s.axes.map Axis.name).Nodup) :
    Query.values s pairs = .error fault ↔ Refused s pairs fault := by
  rw [Query.values, Except.bind_eq_error_iff, foldlM_addPair_eq_error_iff nodup]
  constructor
  · rintro (⟨earlier, p, later, hsplit, hsound, hoffends⟩ | ⟨given, hrun, herror⟩)
    · exact .offended hsplit hsound hoffends
    · obtain ⟨hsound, hholds⟩ := of_foldlM_addPair nodup hrun
      obtain ⟨i, a, ha, hempty, hbefore, rfl⟩ := (complete_eq_error_iff hholds.length).mp herror
      refine .incomplete hsound ha ((hholds.empty i a ha).mp hempty) fun j b hj hb => ?_
      have hfilled := hbefore j hj
      rw [ne_eq, hholds.empty j b hb] at hfilled
      push Not at hfilled
      exact hfilled
  · rintro (⟨hsplit, hsound, hoffends⟩ | @⟨i, a, hsound, ha, hunnamed, hbefore⟩)
    · exact .inl ⟨_, _, _, hsplit, hsound, hoffends⟩
    · obtain ⟨given, hrun, hholds⟩ := hsound.exists_given nodup
      refine .inr ⟨given, hrun, (complete_eq_error_iff hholds.length).mpr
        ⟨i, a, ha, (hholds.empty i a ha).mpr hunnamed, fun j hj hempty => ?_, rfl⟩⟩
      have hi : i < s.axes.length := (List.getElem?_eq_some_iff.mp ha).1
      have hb : s.axes[j]? = some s.axes[j] := List.getElem?_eq_getElem (Nat.lt_trans hj hi)
      obtain ⟨p, hp, hnamed⟩ := hbefore j _ hj hb
      exact (hholds.empty j _ hb).mp hempty p hp hnamed

theorem of_values_eq_ok (nodup : (s.axes.map Axis.name).Nodup)
    (h : Query.values s pairs = .ok values) :
    Sound s pairs ∧ values.length = s.rank ∧ ∀ (i : Nat) (a : Axis), s.axes[i]? = some a →
      (∃ p ∈ pairs, Names p a.name) ∧ ∀ p ∈ pairs, ∀ text, Gives p a.name text →
        ∃ v, values[i]? = some v ∧ AxisValue.ofText a.kind text = .ok v := by
  obtain ⟨given, hrun, hcomplete⟩ := Except.bind_eq_ok_iff.mp h
  obtain ⟨hsound, hholds⟩ := of_foldlM_addPair nodup hrun
  obtain rfl := (complete_eq_ok_iff hholds.length).mp hcomplete
  have hrank : values.length = s.rank := by simpa using hholds.length
  refine ⟨hsound, hrank, fun i a ha => ?_⟩
  have hi : i < values.length := hrank ▸ (List.getElem?_eq_some_iff.mp ha).1
  have hvalue : (values.map some).getD i none = some values[i] := by simp [hi]
  constructor
  · by_contra hunnamed
    push Not at hunnamed
    cases hvalue.symm.trans ((hholds.empty i a ha).mpr hunnamed)
  · intro p hp text hgives
    refine ⟨values[i], List.getElem?_eq_getElem hi, ?_⟩
    rw [AxisValue.ofText, hholds.value i a _ ha hvalue p hp text hgives]

theorem exists_values_iff (nodup : (s.axes.map Axis.name).Nodup) :
    (∃ values, Query.values s pairs = .ok values) ↔ Answerable s pairs := by
  constructor
  · rintro ⟨values, h⟩
    obtain ⟨hsound, -, hvalues⟩ := of_values_eq_ok nodup h
    obtain ⟨read, once⟩ := (sound_iff nodup).mp hsound
    refine ⟨read, once, fun a ha => ?_⟩
    obtain ⟨i, hi⟩ := List.getElem?_of_mem ha
    exact (hvalues i a hi).1
  · intro h
    have hsound : Sound s pairs := (sound_iff nodup).mpr ⟨h.read, h.once⟩
    cases hvalues : Query.values s pairs with
    | ok values => exact ⟨values, rfl⟩
    | error fault =>
      exfalso
      rcases (values_eq_error_iff nodup).mp hvalues with ⟨hsplit, -, hoffends⟩ |
        ⟨-, ha, hunnamed, -⟩
      · exact hsound _ _ _ hsplit _ hoffends
      · obtain ⟨p, hp, hnamed⟩ := h.every _ (List.mem_of_getElem? ha)
        exact hunnamed p hp hnamed

theorem values_eq_ok_of_perm {pairs' : List String} (h : Query.values s pairs = .ok values)
    (hperm : pairs'.Perm pairs) : Query.values s pairs' = .ok values := by
  obtain ⟨hrank, hall, hreadings⟩ := values_eq_ok_iff.mp h
  exact values_eq_ok_iff.mpr ⟨hrank, fun p hp => hall p (hperm.mem_iff.mp hp),
    (hperm.filterMap (reading? s)).trans hreadings⟩

/-- Where names are distinct, pairs come to values exactly when they give every axis one text that
is read. The values are those of the texts, whatever the order of the pairs. Otherwise the query is
refused for the first pair that offends or, when none does, for the first axis without a value. -/
theorem values_taken_or_refused (nodup : (s.axes.map Axis.name).Nodup) (pairs : List String) :
    ((∃ values, Query.values s pairs = .ok values) ↔ Answerable s pairs) ∧
    (∀ values, Query.values s pairs = .ok values →
      values.length = s.rank ∧
      (∀ (i : Nat) (a : Axis), s.axes[i]? = some a → ∀ p ∈ pairs, ∀ text, Gives p a.name text →
        ∃ v, values[i]? = some v ∧ AxisValue.ofText a.kind text = .ok v) ∧
      ∀ pairs', pairs'.Perm pairs → Query.values s pairs' = .ok values) ∧
    ∀ fault, Query.values s pairs = .error fault ↔ Refused s pairs fault := by
  refine ⟨exists_values_iff nodup, fun values h => ?_, fun fault => values_eq_error_iff nodup⟩
  obtain ⟨-, hrank, hvalues⟩ := of_values_eq_ok nodup h
  exact ⟨hrank, fun i a ha => (hvalues i a ha).2, fun pairs' => values_eq_ok_of_perm h⟩

def labelled : Space :=
  .assemble [⟨"time", .time, [.offset 24]⟩, ⟨"label", .custom "label", [.text "a=b"]⟩] []
    .lastWins 0

/-- Blanks around a name and an `=` in a text are taken, in both orders. A repetition is found
before the text that comes with it is read. -/
theorem values_taken_or_refused_labelled :
    (labelled.axes.map Axis.name).Nodup ∧
    Answerable labelled [" label = a=b", "time=24"] ∧
    Query.values labelled ["time=24", " label = a=b"] = .ok [.offset 24, .text "a=b"] ∧
    Refused labelled ["time=24", "time=soon"] (.repeated "time") ∧
    Refused labelled ["label=7"] (.incomplete "time") := by
  have nodup : (labelled.axes.map Axis.name).Nodup := by decide
  have taken : Query.values labelled [" label = a=b", "time=24"] =
      .ok [.offset 24, .text "a=b"] := by decide
  obtain ⟨answered, ordered, -⟩ := values_taken_or_refused nodup [" label = a=b", "time=24"]
  have refused (pairs : List String) (fault : QueryFault) :=
    ((values_taken_or_refused nodup pairs).2.2 fault).mp
  exact ⟨nodup, answered.mp ⟨_, taken⟩, (ordered _ taken).2.2 _ (.swap _ _ _),
    refused _ _ (by decide), refused _ _ (by decide)⟩

end Values

end Query

end GribCatalog
