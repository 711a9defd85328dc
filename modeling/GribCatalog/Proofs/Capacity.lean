import GribCatalog.Catalog.Checked
import GribCatalog.Proofs.Checked
import GribCatalog.Proofs.History

/-! Catalogs within capacity. A checked command on a catalog comes to what the command comes to
without a check, if to anything, and while words count what is in the files no sum of it fails. -/

namespace GribCatalog

theorem sum?_eq_some_iff {a b n : Nat} : sum? a b = some n ↔ a + b < wordLimit ∧ a + b = n := by
  rw [sum?, Option.ite_none_right_eq_some, Option.some.injEq]

theorem isSome_sum? {a b : Nat} (h : a + b < wordLimit) : (sum? a b).isSome :=
  Option.isSome_iff_exists.mpr ⟨_, if_pos h⟩

namespace Checked

variable {ε ε' α β : Type}

theorem isSome_of_bind {y : Except ε α} {f : α → Checked ε β}
    (h : ∀ a, y = .ok a → (f a).run.isSome) : (of y >>= f).run.isSome := by
  cases y with
  | error e => rfl
  | ok a => exact h a rfl

theorem isSome_lift_bind {x : Option α} {f : α → Checked ε β} (hx : x.isSome)
    (h : ∀ a, x = some a → (f a).run.isSome) : (ExceptT.lift x >>= f : Checked ε β).run.isSome := by
  obtain ⟨a, ha⟩ := Option.isSome_iff_exists.mp hx
  rw [ha]
  exact h a ha

theorem isSome_adapt_bind {x : Checked ε α} {y : Except ε α} (hx : x.run = some y) (g : ε → ε')
    {f : α → Checked ε' β} (h : ∀ a, y = .ok a → (f a).run.isSome) :
    (x.adapt g >>= f : Checked ε' β).run.isSome := by
  obtain rfl : x = of y := hx
  cases y with
  | error e => rfl
  | ok a => exact h a rfl

theorem Refines.run_eq {x : Checked ε α} {y : Except ε α} (h : x.Refines y)
    (some : x.run.isSome) : x.run = .some y := by
  obtain ⟨result, hresult⟩ := Option.isSome_iff_exists.mp some
  rw [hresult, h result hresult]

end Checked

namespace Space

theorem snapshot?_eq {s : Space} (h : ∀ e ∈ s.entries, e.position + 1 < wordLimit) :
    s.snapshot? = some s.snapshot := by
  rw [snapshot?, nextPosition?_eq_ite, if_pos h]
  rfl

theorem snapshot_of_snapshot? {s : Space} {x : Snapshot} (h : s.snapshot? = some x) :
    s.snapshot = x := by
  obtain ⟨position, hposition, hx⟩ := Option.bind_eq_some_iff.mp h
  obtain rfl := nextPosition_of_nextPosition? hposition
  exact Option.some.inj hx

section

variable {ρ : Type} [Located ρ] (dimensions : List (Dimension ρ)) {as : List ρ}
  (policy : DuplicatePolicy)

theorem position_ofRecords (fits : as.length < wordLimit) :
    ∀ e ∈ (ofRecords dimensions as policy).entries, e.position + 1 < wordLimit := by
  intro e he
  have := (Placement.position_of_mem_entriesOf he).2
  omega

theorem isSome_snapshot?_ofRecords (fits : as.length < wordLimit) :
    (ofRecords dimensions as policy).snapshot?.isSome := by
  rw [snapshot?_eq (position_ofRecords dimensions policy fits)]
  rfl

theorem hasRoom_ofRecords {count : Nat} (fits : as.length + count < wordLimit) :
    (ofRecords dimensions as policy).HasRoom count where
  entries := position_ofRecords dimensions policy (by omega)
  stream := by rwa [nextPosition_ofRecords policy (by omega)]

end

end Space

theorem Report.merge_of_merge? {old new r : Report} (h : old.merge? new = some r) :
    old.merge new = r := by
  obtain ⟨seen, hseen, h⟩ := Option.bind_eq_some_iff.mp h
  obtain ⟨indexed, hindexed, h⟩ := Option.bind_eq_some_iff.mp h
  obtain ⟨hseen', rfl⟩ := sum?_eq_some_iff.mp hseen
  obtain ⟨hindexed', rfl⟩ := sum?_eq_some_iff.mp hindexed
  rw [← Option.some.inj h, merge, Nat.mod_eq_of_lt hseen', Nat.mod_eq_of_lt hindexed']

theorem Report.isSome_merge? {old new : Report} (seen : new.seen + old.seen < wordLimit)
    (indexed : new.indexed + old.indexed < wordLimit) : (old.merge? new).isSome := by
  simp [merge?, sum?, seen, indexed]

theorem Placement.length_entriesOf_le {ρ : Type} [Located ρ] (pairs : List (Dimension ρ × Axis))
    (position : Nat) (records : List ρ) : (entriesOf pairs position records).length ≤ records.length :=
  (List.length_filterMap_le _ _).trans_eq (List.length_zipIdx ..)

namespace Document

variable {fs : FileSystem} {s : Settings} {now : Instant} {paths : List String} {d d' : Document}
  {space : Space}

theorem build?_refines : (build? now fs s paths).Refines (build now fs s paths) := by
  refine (Checked.refines_of _).bind fun dimensions => (Checked.refines_of _).bind fun files =>
    (Checked.refines_of _).bind fun harvest => ?_
  refine (Space.build?_refines.adapt _).bind fun (space, report) => .lift_bind fun x hx => ?_
  obtain rfl := Space.snapshot_of_snapshot? hx
  exact Checked.refines_pure _

theorem addFiles?_refines {dimensions : List (Dimension Field)} {old : Space} {files : List String} :
    (d.addFiles? now fs s dimensions old files).Refines
      (d.addFiles now fs s dimensions old files) := by
  unfold addFiles? addFiles
  dsimp only
  split
  · exact fun _ h => Option.some.inj h
  refine (Checked.refines_of _).bind fun harvest =>
    (Space.extend?_refines.adapt _).bind fun result => ?_
  obtain ⟨space, report⟩ := result
  refine .lift_bind fun r hr => .lift_bind fun x hx => .lift_bind fun faults hfaults =>
    .lift_bind fun filtered hfiltered => ?_
  obtain rfl := Report.merge_of_merge? hr
  obtain rfl := Space.snapshot_of_snapshot? hx
  obtain ⟨hfaults', rfl⟩ := sum?_eq_some_iff.mp hfaults
  obtain ⟨hfiltered', rfl⟩ := sum?_eq_some_iff.mp hfiltered
  simp only [Nat.mod_eq_of_lt hfaults', Nat.mod_eq_of_lt hfiltered']
  exact Checked.refines_pure _

theorem update?_refines : (d.update? now fs s paths).Refines (d.update now fs s paths) := by
  refine (Checked.refines_of _).bind fun dimensions => (Checked.refines_of _).bind fun found =>
    (Checked.refines_of _).bind fun old => ?_
  cases found.filter fun file => !d.files.any (Path.same file) with
  | nil => exact Checked.refines_pure _
  | cons file files => exact addFiles?_refines

/-- A build of files whose records words can count is checked without a fault. -/
theorem build?_eq (few : d.Countable fs) (built : build now fs s paths = .ok (d, space)) :
    (build? now fs s paths).run = some (.ok (d, space)) := by
  rw [← built]
  refine build?_refines.run_eq ?_
  have hfiles := files_of_build built
  refine Checked.isSome_of_bind fun dimensions hdimensions => Checked.isSome_of_bind fun files hfiles' =>
    Checked.isSome_of_bind fun h hh => ?_
  rw [Except.mapError_eq_ok_iff] at hfiles' hh
  cases hfiles.symm.trans hfiles'
  have fits := few.fits hh
  obtain ⟨hvalid, hne, -⟩ := Settings.fieldDimensions_eq_ok hdimensions
  refine Checked.isSome_adapt_bind (Space.build?_eq fits.fields) _ fun result hresult => ?_
  rw [Space.build_eq hne hvalid fits.fields] at hresult
  cases hresult
  exact Checked.isSome_lift_bind (Space.isSome_snapshot?_ofRecords _ _ fits.fields) fun _ _ => rfl

theorem isSome_addFiles? {t : Settings} {dimensions : List (Dimension Field)} {files new : List String}
    {h : Harvest} (usable : t.fieldDimensions = .ok dimensions)
    (fits : ∀ g, t.harvest fs files.length new = .ok g → (h.append g).Fits) (now now' : Instant) :
    ((ofHarvest now s dimensions files h).1.addFiles? now' fs t dimensions
      (ofHarvest now s dimensions files h).2 new).run.isSome := by
  obtain ⟨valid, nonempty, ordered⟩ := Settings.fieldDimensions_eq_ok usable
  unfold addFiles?
  dsimp only
  split
  · rfl
  refine Checked.isSome_of_bind fun g hg => ?_
  rw [Except.mapError_eq_ok_iff] at hg
  have hfits := fits g hg
  have hlength : h.fields.length + g.fields.length < wordLimit :=
    List.length_append ▸ hfits.fields
  have hroom := Space.hasRoom_ofRecords dimensions s.index.duplicatePolicy hlength
  refine Checked.isSome_adapt_bind (hroom.extend?_eq (show h.fields.length < wordLimit by omega)) _
    fun result hresult => ?_
  have hextend := Space.extend_ofRecords nonempty ordered valid hfits.fields s.index.duplicatePolicy
  cases hextend.symm.trans hresult
  refine Checked.isSome_lift_bind (Report.isSome_merge? ?_ ?_) fun _ _ =>
    Checked.isSome_lift_bind (Space.isSome_snapshot?_ofRecords _ _ hfits.fields) fun _ _ =>
      Checked.isSome_lift_bind (isSome_sum? hfits.scanFaults) fun _ _ =>
        Checked.isSome_lift_bind (isSome_sum? hfits.filtered) fun _ _ => rfl
  · exact Nat.add_comm _ _ ▸ hlength
  · have hold := Placement.length_entriesOf_le (Dimension.gathered dimensions h.fields) 0 h.fields
    have hnew := Placement.length_entriesOf_le
      (Dimension.gathered dimensions (h.fields ++ g.fields)) h.fields.length g.fields
    exact Nat.lt_of_le_of_lt (Nat.add_le_add hnew hold) (Nat.add_comm _ _ ▸ hlength)

/-- An update is checked without a fault as long as words can count what it comes to. -/
theorem History.update?_eq {t : Settings} (history : History fs d) (few : d'.Countable fs)
    (updated : d.update now fs t paths = .ok (d', space)) :
    (d.update? now fs t paths).run = some (.ok (d', space)) := by
  rw [← updated]
  refine update?_refines.run_eq ?_
  have few' := few.of_prefix (files_of_update updated) fun _ _ => rfl
  obtain ⟨s, dimensions, h, hd⟩ := history.harvested few'
  obtain ⟨dims, found, old, usable, hfound, hold, hadd⟩ := update_eq_ok updated
  cases hold.symm.trans (hd.toSpace few')
  obtain ⟨rfl, again⟩ := hd.withDocument usable
  refine Checked.isSome_of_bind fun dims' usable' => Checked.isSome_of_bind fun found' hfound' =>
    Checked.isSome_of_bind fun old' hold' => ?_
  rw [Except.mapError_eq_ok_iff] at hfound' hold'
  cases usable.symm.trans usable'
  cases hfound.symm.trans hfound'
  cases hold.symm.trans hold'
  unfold unlisted at hadd
  cases hnew : found.filter fun file => !d.files.any (Path.same file) with
  | nil => rfl
  | cons file files =>
    rw [hnew] at hadd
    obtain ⟨-, hadd⟩ := hadd.resolve_left fun h => absurd h.1 (List.cons_ne_nil _ _)
    obtain ⟨g, -, -, hg, -, hfiles, -⟩ := addFiles_eq_ok hadd
    have fits : ∀ g', (t.withDocument d).harvest fs d.files.length (file :: files) = .ok g' →
        (h.append g').Fits := by
      intro g' hg'
      refine few.fits (s := t.withDocument d) ?_
      rw [hfiles, Settings.harvest_append again, hg']
      rfl
    have added := isSome_addFiles? (s := s) usable fits d.created now
    rwa [← hd.document] at added

end Document

end GribCatalog
