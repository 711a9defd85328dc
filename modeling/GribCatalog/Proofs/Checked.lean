import GribCatalog.Proofs.Growth
import GribCatalog.Proofs.Persistence
import GribCatalog.Space.Checked

/-! Checked runs. A run whose sums all fit comes to what it comes to without a check, and the run
whose stream does not end before the last position comes to nothing. -/

namespace GribCatalog

theorem sum?_bind {α : Type} (a b : Nat) (x : Option α) :
    ((sum? a b).bind fun _ => x) = if a + b < wordLimit then x else none := by
  rw [sum?]
  split <;> rfl

theorem foldlM_advance? {σ α : Type} {position : σ → Nat} {step : σ → α → σ}
    (advances : ∀ s a, position (step s a) = positionAfter (position s) 1) {s : σ}
    (hs : position s < wordLimit) (l : List α) :
    l.foldlM (advance? position step) s =
      if position s + l.length < wordLimit then some (l.foldl step s) else none := by
  induction l generalizing s with
  | nil => exact (if_pos hs).symm
  | cons a l ih =>
    rw [List.foldlM_cons, List.length_cons, List.foldl_cons, advance?]
    change (((sum? (position s) 1).bind fun _ => some (step s a)).bind _) = _
    rw [sum?_bind]
    by_cases hlast : position s + 1 < wordLimit
    · have hnext : position (step s a) = position s + 1 := by
        rw [advances, positionAfter_of_lt hlast]
      rw [if_pos hlast, Option.bind_some, ih (hnext ▸ hlast), hnext, Nat.add_assoc,
        Nat.add_comm 1]
    · rw [if_neg hlast, if_neg (by omega)]
      rfl

theorem foldl_of_foldlM_advance? {σ α : Type} {position : σ → Nat} {step : σ → α → σ} {l : List α}
    {s t : σ} (h : l.foldlM (advance? position step) s = some t) : l.foldl step s = t := by
  induction l generalizing s with
  | nil => exact Option.some.inj h
  | cons a l ih =>
    obtain ⟨next, hnext, hrest⟩ := Option.bind_eq_some_iff.mp h
    obtain ⟨_, -, hnext⟩ := Option.bind_eq_some_iff.mp hnext
    cases hnext
    exact ih hrest

namespace Survey

variable {ρ : Type}

theorem position_accumulate (s : Survey ρ) (r : ρ) :
    (s.accumulate r).position = positionAfter s.position 1 :=
  (positionAfter_positionAfter _ _ _).symm

theorem accumulateBatch?_eq (s : Survey ρ) (options : BuildOptions) (records : List ρ) :
    s.accumulateBatch? options records =
      if s.position + records.length < wordLimit then some (s.accumulateBatch options records)
      else none := by
  unfold accumulateBatch? accumulateBatch
  split
  · exact sum?_bind _ _ _
  · exact foldlM_advance? position_accumulate (positionAfter_lt _ _) records

theorem accumulateBatch_of_accumulateBatch? {s t : Survey ρ} {options : BuildOptions}
    {records : List ρ} (h : s.accumulateBatch? options records = some t) :
    s.accumulateBatch options records = t := by
  rw [accumulateBatch?_eq, Option.ite_none_right_eq_some] at h
  exact Option.some.inj h.2

end Survey

theorem Placement.foldlM_assign? {ρ : Type} [Located ρ] {p : Placement ρ}
    (hp : p.position < wordLimit) (records : List ρ) :
    records.foldlM Placement.assign? p =
      if p.position + records.length < wordLimit then some (records.foldl Placement.assign p)
      else none :=
  foldlM_advance? (fun _ _ => rfl) hp records

namespace Checked

variable {ε ε' α β : Type}

@[simp] theorem of_ok_bind (a : α) (f : α → Checked ε β) : (of (.ok a) >>= f) = f a :=
  rfl

@[simp] theorem lift_some_bind (a : α) (f : α → Checked ε β) :
    ((ExceptT.lift (some a) : Checked ε α) >>= f) = f a :=
  rfl

/-- What the checked run `x` comes to, if it comes to something, is what `y` is. -/
def Refines (x : Checked ε α) (y : Except ε α) : Prop :=
  ∀ result, x.run = some result → y = result

theorem refines_of (y : Except ε α) : (of y).Refines y :=
  fun _ h => Option.some.inj h

theorem refines_pure (a : α) : (pure a : Checked ε α).Refines (.ok a) :=
  fun _ h => Option.some.inj h

theorem Refines.bind {x : Checked ε α} {y : Except ε α} (h : x.Refines y) {f : α → Checked ε β}
    {g : α → Except ε β} (hf : ∀ a, (f a).Refines (g a)) : (x >>= f).Refines (y >>= g) := by
  intro result hresult
  obtain ⟨outcome, houtcome, hresult⟩ := Option.bind_eq_some_iff.mp hresult
  rw [h outcome houtcome]
  cases outcome with
  | error e => exact Option.some.inj hresult
  | ok a => exact hf a result hresult

theorem Refines.lift_bind {x : Option α} {f : α → Checked ε β} {y : Except ε β}
    (h : ∀ a, x = some a → (f a).Refines y) : Refines (ExceptT.lift x >>= f) y := by
  cases x with
  | none => exact fun _ hnone => nomatch hnone
  | some a => exact h a rfl

theorem Refines.adapt {x : Checked ε α} {y : Except ε α} (h : x.Refines y) (f : ε → ε') :
    Refines (x.adapt f) (y.mapError f) := by
  intro result hresult
  obtain ⟨outcome, houtcome, rfl⟩ := Option.map_eq_some_iff.mp hresult
  rw [h outcome houtcome]

end Checked

namespace Space

structure HasRoom (s : Space) (count : Nat) : Prop where
  entries : ∀ e ∈ s.entries, e.position + 1 < wordLimit
  stream : s.nextPosition + count < wordLimit

instance (s : Space) (count : Nat) : Decidable (s.HasRoom count) :=
  decidable_of_iff ((∀ e ∈ s.entries, e.position + 1 < wordLimit) ∧
      s.nextPosition + count < wordLimit)
    ⟨fun h => ⟨h.1, h.2⟩, fun h => ⟨h.entries, h.stream⟩⟩

variable {s : Space}

theorem nextPosition?_eq_ite (s : Space) :
    s.nextPosition? =
      if ∀ e ∈ s.entries, e.position + 1 < wordLimit then some s.nextPosition else none := by
  rw [nextPosition?]
  split
  · next h =>
    have hafter : s.entries.mapM (fun e => sum? e.position 1) =
        some (s.entries.map fun e => positionAfter e.position 1) := by
      refine Option.mapM_eq_some_of_forall₂ ?_
      rw [List.forall₂_map_right_iff, List.forall₂_same]
      intro e he
      rw [sum?, if_pos (h e he), positionAfter_of_lt (h e he)]
    rw [hafter]
    rfl
  · next h =>
    push Not at h
    obtain ⟨e, he, hlast⟩ := h
    have hnone : s.entries.mapM (fun e => sum? e.position 1) = none :=
      Option.mapM_eq_none_iff.mpr ⟨e, he, if_neg (Nat.not_lt.mpr hlast)⟩
    rw [hnone]
    rfl

theorem nextPosition_of_nextPosition? {position : Nat} (h : s.nextPosition? = some position) :
    s.nextPosition = position := by
  rw [nextPosition?_eq_ite, Option.ite_none_right_eq_some] at h
  exact Option.some.inj h.2

section

variable {ρ : Type} [Located ρ] {dimensions : List (Dimension ρ)} {records : List ρ}
  {options : BuildOptions}

/-- Both passes over the records of a survey that is still to begin. What is done between them leaves
the stream at its start. -/
theorem run_passes (survey : Survey ρ) (records : List ρ) (options : BuildOptions)
    (unseen : survey.seen = 0) (base : survey.base < wordLimit)
    (arrange : Survey ρ → Except IndexFault (Placement ρ))
    (restarts : ∀ t p, arrange t = .ok p → p.position = t.base) :
    (do
      let t ← ExceptT.lift (survey.accumulateBatch? options records)
      let p ← Checked.of (arrange t)
      let p ← ExceptT.lift (records.foldlM Placement.assign? p)
      pure p.publish : Checked IndexFault (Space × Report)).run =
      if survey.base + records.length < wordLimit then
        some do
          let p ← arrange (survey.accumulateBatch options records)
          .ok (records.foldl Placement.assign p).publish
      else none := by
  have hposition : survey.position = survey.base := by
    rw [Survey.position, unseen]
    exact positionAfter_of_lt base
  rw [Survey.accumulateBatch?_eq, hposition]
  split
  · next fits =>
    rw [Checked.lift_some_bind]
    cases harrange : arrange (survey.accumulateBatch options records) with
    | error e => rfl
    | ok p =>
      have hstart : p.position = survey.base :=
        (restarts _ p harrange).trans (Survey.base_accumulateBatch records survey options)
      rw [Checked.of_ok_bind, Placement.foldlM_assign? (hstart ▸ base), hstart, if_pos fits]
      rfl
  · rfl

theorem build?_eq (fits : records.length < wordLimit) :
    (build? dimensions records options).run = some (build dimensions records options) := by
  unfold build? build Survey.start
  cases options.validate with
  | error e => rfl
  | ok =>
  split
  · rfl
  · have hpasses := run_passes { gatherings := dimensions.map fun d => { dimension := d } } records
      options rfl (show 0 < wordLimit by decide) (fun t => .ok (t.finish options))
      (fun t p h => by cases h; rfl)
    rw [Nat.zero_add, if_pos fits] at hpasses
    exact hpasses

theorem build?_refines :
    (build? dimensions records options).Refines (build dimensions records options) := by
  unfold build? build
  refine (Checked.refines_of _).bind fun _ => (Checked.refines_of _).bind fun survey =>
    .lift_bind fun t ht => .lift_bind fun q hq => ?_
  obtain rfl := Survey.accumulateBatch_of_accumulateBatch? ht
  obtain rfl := foldl_of_foldlM_advance? hq
  exact Checked.refines_pure _

omit [Located ρ] in
theorem seed_start (accepted : checkDimensions s.axes dimensions = .ok ()) (base : Nat) :
    Survey.seed { gatherings := dimensions.map fun d => { dimension := d }, base } s.axes =
      ({ gatherings := (dimensions.zip s.axes).map fun p => p.1.seeded p.2, base }, .ok ()) := by
  have kinds := checkDimensions_eq_ok_iff.mp accepted
  rw [Survey.seed, if_neg (by simp [kinds.length_eq]), Survey.addAxes_seeded kinds]

theorem extend?_eq_ite (hs : s.consumed < wordLimit) (valid : options.validate = .ok ())
    (accepted : checkDimensions s.axes dimensions = .ok ()) (nonempty : dimensions ≠ []) :
    (s.extend? dimensions records options).run =
      if s.HasRoom records.length then some (s.extend dimensions records options) else none := by
  have hempty : dimensions.isEmpty = false := by simpa using nonempty
  obtain ⟨survey, hsurvey⟩ : ∃ survey : Survey ρ, survey =
      { gatherings := (dimensions.zip s.axes).map fun p => p.1.seeded p.2
        base := s.nextPosition } := ⟨_, rfl⟩
  have hseed := seed_start accepted s.nextPosition
  rw [← hsurvey] at hseed
  have hextend : s.extend dimensions records options =
      (reindex s.axes ((survey.accumulateBatch options records).finish options) s.entries >>=
        fun p => .ok (records.foldl Placement.assign p).publish) := by
    simp only [extend, valid, accepted, Survey.start, hempty, Bool.false_eq_true, if_false, bind,
      Except.bind, hseed]
  have hbase : survey.base = s.nextPosition := by rw [hsurvey]
  have hpasses := run_passes survey records options (by rw [hsurvey])
    (hbase ▸ nextPosition_lt_iff.mpr hs)
    (fun t => reindex s.axes (t.finish options) s.entries) fun t p h => by
      obtain ⟨kept, -, rfl⟩ := reindex_eq_ok_iff.mp h
      rfl
  rw [← hextend, hbase] at hpasses
  simp only [extend?, valid, accepted, Survey.start, hempty, Bool.false_eq_true, if_false,
    Checked.of_ok_bind]
  rw [nextPosition?_eq_ite]
  by_cases hentries : ∀ e ∈ s.entries, e.position + 1 < wordLimit
  · rw [if_pos hentries, Checked.lift_some_bind, hseed]
    refine hpasses.trans (if_congr ⟨fun h => ⟨hentries, h⟩, HasRoom.stream⟩ rfl rfl)
  · rw [if_neg hentries, if_neg fun h => hentries h.entries]
    rfl

/-- What is refused is refused before anything is counted. -/
theorem extend?_eq_error (refused : options.validate ≠ .ok () ∨
      checkDimensions s.axes dimensions ≠ .ok () ∨ dimensions = []) :
    (s.extend? dimensions records options).run = some (s.extend dimensions records options) := by
  unfold extend? extend Survey.start
  cases hvalid : options.validate with
  | error e => rfl
  | ok =>
  cases haccepted : checkDimensions s.axes dimensions with
  | error e => rfl
  | ok =>
  obtain rfl : dimensions = [] := by simpa [hvalid, haccepted] using refused
  rfl

theorem extend?_refines :
    (s.extend? dimensions records options).Refines (s.extend dimensions records options) := by
  unfold extend? extend Survey.start
  refine (Checked.refines_of _).bind fun _ => (Checked.refines_of _).bind fun _ => ?_
  split
  · exact fun _ h => Option.some.inj h
  refine .lift_bind fun base hbase => ?_
  obtain rfl := nextPosition_of_nextPosition? hbase
  generalize Survey.mk (dimensions.map fun d => { dimension := d }) [] 0 s.nextPosition = start
  change Checked.Refines _ ((start.seed s.axes).2 >>= fun _ => reindex s.axes
    (((start.seed s.axes).1.accumulateBatch options records).finish options) s.entries >>=
      fun p => .ok (records.foldl Placement.assign p).publish)
  refine (Checked.refines_of _).bind fun _ => .lift_bind fun t
    (ht : (start.seed s.axes).1.accumulateBatch? options records = some t) => ?_
  rw [Survey.accumulateBatch_of_accumulateBatch? ht]
  refine (Checked.refines_of _).bind fun p => .lift_bind fun q hq => ?_
  rw [foldl_of_foldlM_advance? hq]
  exact Checked.refines_pure _

theorem HasRoom.extend?_eq (hroom : s.HasRoom records.length) (hs : s.consumed < wordLimit) :
    (s.extend? dimensions records options).run = some (s.extend dimensions records options) := by
  by_cases h : options.validate = .ok () ∧ checkDimensions s.axes dimensions = .ok () ∧
      dimensions ≠ []
  · rw [extend?_eq_ite hs h.1 h.2.1 h.2.2, if_pos hroom]
  · exact extend?_eq_error (by tauto)

/-- A checked extension comes to nothing exactly when its dimensions are accepted and there is no
room for the records. -/
theorem extend?_eq_none_iff (hs : s.consumed < wordLimit) (axes : s.axes ≠ []) :
    (s.extend? dimensions records options).run = none ↔
      options.validate = .ok () ∧ checkDimensions s.axes dimensions = .ok () ∧
        ¬ s.HasRoom records.length := by
  by_cases h : options.validate = .ok () ∧ checkDimensions s.axes dimensions = .ok ()
  · obtain ⟨valid, accepted⟩ := h
    have nonempty : dimensions ≠ [] := by
      rintro rfl
      exact axes (List.length_eq_zero_iff.mp (length_of_checkDimensions accepted))
    rw [extend?_eq_ite hs valid accepted nonempty]
    split <;> simp_all
  · rw [extend?_eq_error (by tauto)]
    exact iff_of_false nofun (by tauto)

theorem HasRoom.of_extend? {result : Space × Report} (hs : s.consumed < wordLimit)
    (axes : s.axes ≠ []) (h : (s.extend? dimensions records options).run = some (.ok result)) :
    s.HasRoom records.length := by
  have hextend := extend?_refines _ h
  obtain ⟨_, valid, hextend⟩ := Except.bind_eq_ok_iff.mp hextend
  obtain ⟨_, accepted, -⟩ := Except.bind_eq_ok_iff.mp hextend
  by_contra hroom
  rw [(extend?_eq_none_iff hs axes).mpr ⟨valid, accepted, hroom⟩] at h
  cases h

end

end Space

end GribCatalog
