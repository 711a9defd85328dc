import GribCatalog.Proofs.Address
import GribCatalog.Proofs.Update
import Mathlib.Algebra.Ring.Nat

/-! Catalogs that are updated again and again. However the settings change on the way,
a catalog is the one of all its files, harvested in their order: so its counts are
those of the files, and the records of its entries are found in them. -/

namespace GribCatalog

theorem Path.nodup_fresh {known : List String} (nodup : (known.map components).Nodup)
    (paths : List String) : ((known ++ fresh known paths).map components).Nodup := by
  induction paths generalizing known with
  | nil => simpa [fresh] using nodup
  | cons path paths ih =>
    rw [fresh]
    split
    · exact ih nodup
    · next hnew =>
      rw [any_same_iff] at hnew
      have hmore : ((known ++ [path]).map components).Nodup := by
        rw [List.map_append, List.map_singleton, ← List.concat_eq_append]
        exact nodup.concat hnew
      simpa using ih hmore

/-! ### What is in the files -/

namespace FileSystem

theorem gribBytes_congr {fs fs' : FileSystem} {path : String}
    (same : fs'.contents? path = fs.contents? path) : fs'.gribBytes path = fs.gribBytes path := by
  rw [gribBytes, gribBytes, same]

def items (fs : FileSystem) (path : String) : List ScanItem :=
  match fs.gribBytes path with
  | .ok bs => scan 0 bs
  | .error _ => []

/-- The sum of what is counted in the items of every file. -/
def total (fs : FileSystem) (count : List ScanItem → Nat) (files : List String) : Nat :=
  (files.map fun path => count (fs.items path)).sum

def fieldCount (fs : FileSystem) : List String → Nat :=
  fs.total fun items => (ScanItem.fields items).length

def faultCount (fs : FileSystem) : List String → Nat :=
  fs.total fun items => (ScanItem.faults items).length

theorem total_cons (fs : FileSystem) (count : List ScanItem → Nat) (path : String)
    (files : List String) :
    fs.total count (path :: files) = count (fs.items path) + fs.total count files := by
  simp [total]

theorem total_append (fs : FileSystem) (count : List ScanItem → Nat) (as bs : List String) :
    fs.total count (as ++ bs) = fs.total count as + fs.total count bs := by
  simp [total]

theorem total_congr {fs fs' : FileSystem} {files : List String}
    (same : ∀ path ∈ files, fs'.contents? path = fs.contents? path)
    (count : List ScanItem → Nat) : fs'.total count files = fs.total count files := by
  refine congrArg List.sum (List.map_congr_left fun path hpath => ?_)
  rw [items, items, gribBytes_congr (same path hpath)]

theorem length_scan {fs : FileSystem} {path : String} {bs : Bytes}
    (h : fs.gribBytes path = .ok bs) (file : UInt32) :
    (ScanItem.fields (scan file bs)).length = (ScanItem.fields (fs.items path)).length ∧
      (ScanItem.faults (scan file bs)).length = (ScanItem.faults (fs.items path)).length := by
  have hitems : fs.items path = scan 0 bs := by rw [items, h]
  rw [hitems, scan_eq_map file, ScanItem.fields_map_moved, ScanItem.faults_map_moved,
    List.length_map, List.length_map]
  exact ⟨rfl, rfl⟩

end FileSystem

namespace Harvest

theorem length_ofItems (parameter : Option Parameter) (items : List ScanItem) :
    (ofItems parameter items).fields.length + (ofItems parameter items).filtered =
      (ScanItem.fields items).length := by
  rw [ofItems, List.partition_eq_filter_filter]
  exact (List.length_eq_length_filter_add (wants parameter)).symm

theorem mem_ofItems {parameter : Option Parameter} {items : List ScanItem} {f : Field}
    (h : f ∈ (ofItems parameter items).fields) : f ∈ ScanItem.fields items := by
  rw [ofItems, List.partition_eq_filter_filter] at h
  exact (List.mem_filter.mp h).1

end Harvest

namespace Settings

variable {s t : Settings} {fs fs' : FileSystem} {parameter : Option Parameter} {base : Nat}
  {files : List String} {h : Harvest}

/-- A harvest holds or leaves out every field of the files, and counts every fault. -/
theorem harvestFrom_counts (hh : harvestFrom fs parameter base files = .ok h) :
    h.fields.length + h.filtered = fs.fieldCount files ∧ h.scanFaults = fs.faultCount files := by
  induction files generalizing base h with
  | nil =>
    cases hh
    exact ⟨rfl, rfl⟩
  | cons path files ih =>
    obtain ⟨bs, hbs, hh⟩ := Except.bind_eq_ok_iff.mp hh
    obtain ⟨g, hg, hh⟩ := Except.bind_eq_ok_iff.mp hh
    cases hh
    obtain ⟨hfields, hfaults⟩ := ih hg
    obtain ⟨hscan, hscan'⟩ := FileSystem.length_scan hbs (UInt32.ofNat base)
    have hparts := Harvest.length_ofItems parameter (scan (UInt32.ofNat base) bs)
    have hcount : (Harvest.ofItems parameter (scan (UInt32.ofNat base) bs)).scanFaults =
      (ScanItem.faults (scan (UInt32.ofNat base) bs)).length := rfl
    simp only [Harvest.append, FileSystem.fieldCount, FileSystem.faultCount,
      FileSystem.total_cons, List.length_append] at *
    omega

theorem mem_harvestFrom (hh : harvestFrom fs parameter base files = .ok h) {f : Field}
    (hf : f ∈ h.fields) :
    ∃ i path bs, files[i]? = some path ∧ fs.gribBytes path = .ok bs ∧
      f ∈ ScanItem.fields (scan (UInt32.ofNat (base + i)) bs) := by
  induction files generalizing base h with
  | nil =>
    cases hh
    cases hf
  | cons path files ih =>
    obtain ⟨bs, hbs, hh⟩ := Except.bind_eq_ok_iff.mp hh
    obtain ⟨g, hg, hh⟩ := Except.bind_eq_ok_iff.mp hh
    cases hh
    rcases List.mem_append.mp hf with hf | hf
    · exact ⟨0, path, bs, rfl, hbs, Harvest.mem_ofItems hf⟩
    · obtain ⟨i, path', bs', hpath, hbytes, hf⟩ := ih hg hf
      exact ⟨i + 1, path', bs', hpath, hbytes, by rwa [Nat.add_right_comm] at hf⟩

theorem harvestFrom_congr (same : ∀ path ∈ files, fs'.contents? path = fs.contents? path)
    (parameter : Option Parameter) (base : Nat) :
    harvestFrom fs' parameter base files = harvestFrom fs parameter base files := by
  induction files generalizing base with
  | nil => rfl
  | cons path files ih =>
    rw [List.forall_mem_cons] at same
    rw [harvestFrom, harvestFrom, FileSystem.gribBytes_congr same.1, ih same.2]

theorem harvest_congr (parameter : t.parameter = s.parameter)
    (same : ∀ path ∈ files, fs'.contents? path = fs.contents? path) (base : Nat) :
    t.harvest fs' base files = s.harvest fs base files := by
  have hwanted : t.wantedParameter = s.wantedParameter := by
    rw [wantedParameter, wantedParameter, parameter]
  rw [harvest, harvest, hwanted]
  exact congrArg _ (funext fun wanted => harvestFrom_congr same wanted base)

theorem nodup_files {paths : List String} (h : s.files fs paths = .ok files) :
    (files.map Path.components).Nodup := by
  rw [← (files_eq_ok h).1]
  exact @Path.nodup_fresh [] List.nodup_nil (paths.flatMap (s.filesAt fs))

theorem fieldDimensions_congr {dimensions dimensions' : List (Dimension Field)}
    (same : t.dimensions = s.dimensions) (hs : s.fieldDimensions = .ok dimensions)
    (ht : t.fieldDimensions = .ok dimensions') : dimensions' = dimensions := by
  obtain ⟨-, -, hs⟩ := Except.bind_eq_ok_iff.mp hs
  obtain ⟨-, -, ht⟩ := Except.bind_eq_ok_iff.mp ht
  rw [same, hs] at ht
  cases ht
  rfl

end Settings

/-! ### The records -/

theorem Placement.pairwise_entriesOf {ρ : Type} [Located ρ] (pairs : List (Dimension ρ × Axis))
    (position : Nat) (records : List ρ) :
    (entriesOf pairs position records).Pairwise fun a b => a.position < b.position := by
  refine (pairwise_zipIdx records position).filterMap _ fun p q hpq a ha b hb => ?_
  rw [(entryFor?_eq_some_iff.mp ha).1, (entryFor?_eq_some_iff.mp hb).1]
  exact hpq

/-- Every record of a report is indexed or skipped. -/
theorem Report.seen_ofRecords {ρ : Type} [Located ρ] (dimensions : List (Dimension ρ))
    (records : List ρ) (policy : DuplicatePolicy) :
    (ofRecords dimensions records policy).seen =
      (ofRecords dimensions records policy).indexed +
        (ofRecords dimensions records policy).skippedRecords := by
  have read : (Space.ofRecords dimensions records policy).entries.length =
      (records.filter (Dimension.allRead dimensions)).length := by
    rw [← List.countP_eq_length_filter]
    exact Placement.length_entriesOf dimensions (fun _ h => h) 0
  have unread := Survey.length_eraseDups_failures dimensions 0 records
  rw [skippedRecords, ofRecords, unread, read]
  exact List.length_eq_length_filter_add (Dimension.allRead dimensions)

namespace Document

structure Accounts (fs : FileSystem) (d : Document) : Prop where
  files : (d.files.map Path.components).Nodup
  located : ∀ e ∈ d.space.entries, e.location.file.toNat < d.files.length ∧
    ∃ path bs, d.pathOf? e.location = some path ∧ fs.gribBytes path = .ok bs ∧
      ∃ f ∈ ScanItem.fields (scan e.location.file bs), Located.location f = e.location
  ascending : d.space.entries.Pairwise fun a b => a.position < b.position
  reserved : ∀ e ∈ d.space.entries, e.position < d.space.nextPosition
  indexed : d.report.indexed = d.space.entries.length
  misses : d.report.misses = []
  seen : d.report.seen = d.report.indexed + d.report.skippedRecords
  fields : d.report.seen + d.filtered = fs.fieldCount d.files
  faults : d.scanFaults = fs.faultCount d.files

structure Countable (fs : FileSystem) (d : Document) : Prop where
  files : d.files.length ≤ fileLimit
  fields : fs.fieldCount d.files < wordLimit
  faults : fs.faultCount d.files < wordLimit

variable {s : Settings} {fs : FileSystem} {dimensions : List (Dimension Field)}
  {files : List String} {h : Harvest}

theorem accounts_ofHarvest (hh : s.harvest fs 0 files = .ok h)
    (distinct : (files.map Path.components).Nodup) (numbered : files.length ≤ fileLimit)
    (fits : h.Fits) (now : Instant) : (ofHarvest now s dimensions files h).1.Accounts fs := by
  obtain ⟨parameter, -, hh⟩ := Except.bind_eq_ok_iff.mp hh
  obtain ⟨hfields, hfaults⟩ := Settings.harvestFrom_counts hh
  have hnext : (Space.ofRecords dimensions h.fields s.index.duplicatePolicy).nextPosition =
      h.fields.length := Space.nextPosition_ofRecords _ fits.fields
  constructor
  case files => exact distinct
  case located =>
    intro e he
    obtain ⟨p, hp, hentry⟩ := List.mem_filterMap.mp he
    obtain ⟨-, hlocation, -⟩ := Placement.entryFor?_eq_some_iff.mp hentry
    obtain ⟨i, path, bs, hpath, hbytes, hf⟩ :=
      Settings.mem_harvestFrom hh (List.fst_mem_of_mem_zipIdx hp)
    rw [Nat.zero_add] at hf
    have hi : i < files.length := (List.getElem?_eq_some_iff.mp hpath).1
    have hfile : e.location.file = UInt32.ofNat i := by
      rw [hlocation]
      exact Field.file_of_mem_scan hf
    have hnumber : e.location.file.toNat = i := by
      rw [hfile]
      exact UInt32.toNat_ofNat_of_lt' (Nat.lt_of_lt_of_le hi numbered)
    refine ⟨hnumber ▸ hi, path, bs, ?_, hbytes, p.1, hfile ▸ hf, hlocation.symm⟩
    rw [pathOf?, hnumber]
    exact hpath
  case ascending => exact Placement.pairwise_entriesOf _ 0 h.fields
  case reserved =>
    intro e he
    have hlast := (Placement.position_of_mem_entriesOf he).2
    rw [Nat.zero_add, ← hnext] at hlast
    exact hlast
  case indexed => rfl
  case misses => rfl
  case seen => exact Report.seen_ofRecords dimensions h.fields s.index.duplicatePolicy
  case fields => exact hfields
  case faults => exact hfaults

/-! ### Updates -/

/-- Catalogs as they come about: built, and then updated with any paths under any settings while
the contents of their files stay what they are. -/
inductive History : FileSystem → Document → Prop
  | build {fs : FileSystem} {now : Instant} {s : Settings} {paths : List String} {d : Document}
    {space : Space} : Document.build now fs s paths = .ok (d, space) → History fs d
  | update {fs fs' : FileSystem} {now : Instant} {s : Settings} {paths : List String}
    {d d' : Document} {space : Space} : History fs d →
    (∀ path ∈ d.files, fs'.contents? path = fs.contents? path) →
    d.update now fs' s paths = .ok (d', space) → History fs' d'

structure Harvested (fs : FileSystem) (d : Document) (s : Settings)
    (dimensions : List (Dimension Field)) (h : Harvest) : Prop where
  usable : s.fieldDimensions = .ok dimensions
  harvest : s.harvest fs 0 d.files = .ok h
  distinct : (d.files.map Path.components).Nodup
  document : d = (ofHarvest d.created s dimensions d.files h).1

variable {d d' : Document} {t : Settings} {fs' : FileSystem} {now : Instant} {paths : List String}
  {space : Space}

theorem Countable.fits (few : d.Countable fs) (hh : s.harvest fs 0 d.files = .ok h) : h.Fits := by
  obtain ⟨parameter, -, hh⟩ := Except.bind_eq_ok_iff.mp hh
  obtain ⟨hfields, hfaults⟩ := Settings.harvestFrom_counts hh
  have := few.fields
  have := few.faults
  exact ⟨by omega, by omega, by omega⟩

/-- What is countable is so without the files that came last, wherever the others are. -/
theorem Countable.of_prefix (few : d'.Countable fs') (files : d.files <+: d'.files)
    (same : ∀ path ∈ d.files, fs'.contents? path = fs.contents? path) : d.Countable fs := by
  obtain ⟨hfiles, hfields, hfaults⟩ := few
  obtain ⟨new, hnew⟩ := files
  rw [← hnew, List.length_append] at hfiles
  rw [← hnew, FileSystem.fieldCount, FileSystem.total_append,
    FileSystem.total_congr same] at hfields
  rw [← hnew, FileSystem.faultCount, FileSystem.total_append,
    FileSystem.total_congr same] at hfaults
  exact ⟨by omega, Nat.lt_of_le_of_lt (Nat.le_add_right _ _) hfields,
    Nat.lt_of_le_of_lt (Nat.le_add_right _ _) hfaults⟩

theorem Harvested.congr (hd : d.Harvested fs s dimensions h)
    (same : ∀ path ∈ d.files, fs'.contents? path = fs.contents? path) :
    d.Harvested fs' s dimensions h :=
  { hd with harvest := (Settings.harvest_congr rfl same 0).trans hd.harvest }

theorem files_of_build (built : build now fs s paths = .ok (d, space)) :
    s.files fs paths = .ok d.files := by
  obtain ⟨dimensions, -, built⟩ := Except.bind_eq_ok_iff.mp built
  obtain ⟨files, hfiles, built⟩ := Except.bind_eq_ok_iff.mp built
  obtain ⟨harvest, -, built⟩ := Except.bind_eq_ok_iff.mp built
  obtain ⟨_, -, built⟩ := Except.bind_eq_ok_iff.mp built
  rw [Except.mapError_eq_ok_iff] at hfiles
  cases built
  exact hfiles

theorem harvested_of_build (built : build now fs s paths = .ok (d, space))
    (few : d.Countable fs) : ∃ dimensions h, d.Harvested fs s dimensions h := by
  have hfiles := files_of_build built
  have countable : s.Countable fs paths := by
    intro files h hfiles' hh
    cases hfiles.symm.trans hfiles'
    exact few.fits hh
  obtain ⟨dimensions, files, h, hdimensions, hfiles', hh, hresult⟩ := build_eq_ok built countable
  cases hfiles.symm.trans hfiles'
  have hdocument : d = (ofHarvest now s dimensions d.files h).1 := congrArg Prod.fst hresult
  have hcreated : d.created = now := congrArg created hdocument
  exact ⟨dimensions, h, hdimensions, hh, Settings.nodup_files hfiles, hcreated ▸ hdocument⟩

theorem files_of_update (updated : d.update now fs t paths = .ok (d', space)) :
    d.files <+: d'.files := by
  obtain ⟨_, found, _, -, -, -, ⟨-, rfl, -⟩ | ⟨-, hadd⟩⟩ := update_eq_ok updated
  · exact List.prefix_refl _
  · obtain ⟨_, _, -, -, -, hfiles, -⟩ := addFiles_eq_ok hadd
    exact hfiles ▸ List.prefix_append _ _

theorem nodup_unlisted (distinct : (d.files.map Path.components).Nodup) {found : List String}
    (hfound : t.files fs paths = .ok found) :
    ((d.files ++ d.unlisted found).map Path.components).Nodup := by
  rw [List.map_append, List.nodup_append]
  refine ⟨distinct, (Settings.nodup_files hfound).sublist (List.filter_sublist.map _), ?_⟩
  rintro c hc _ hc' rfl
  obtain ⟨file, hfile, rfl⟩ := List.mem_map.mp hc'
  have hnew := (List.mem_filter.mp hfile).2
  rw [Path.any_same_iff.mpr hc] at hnew
  cases hnew

namespace Harvested

theorem toSpace (hd : d.Harvested fs s dimensions h) (few : d.Countable fs) :
    d.toSpace = .ok (ofHarvest d.created s dimensions d.files h).2 := by
  obtain ⟨-, nonempty, -⟩ := Settings.fieldDimensions_eq_ok hd.usable
  have := @toSpace_ofHarvest s dimensions d.files h nonempty (few.fits hd.harvest).fields d.created
  rwa [← hd.document] at this

/-- Settings with the dimensions and the parameter of a catalog have the same dimensions and the
same harvest of its files. -/
theorem withDocument (hd : d.Harvested fs s dimensions h) {dims : List (Dimension Field)}
    (usable : (t.withDocument d).fieldDimensions = .ok dims) :
    dims = dimensions ∧ (t.withDocument d).harvest fs 0 d.files = .ok h := by
  have hnames : (t.withDocument d).dimensions = s.dimensions :=
    congrArg Document.dimensions hd.document
  have hparameter : (t.withDocument d).parameter = s.parameter :=
    congrArg Document.parameter hd.document
  exact ⟨Settings.fieldDimensions_congr hnames hd.usable usable,
    (Settings.harvest_congr hparameter (fun _ _ => rfl) 0).trans hd.harvest⟩

theorem addFiles (hd : d.Harvested fs s dimensions h) (few : d'.Countable fs)
    (usable : t.fieldDimensions = .ok dimensions) (again : t.harvest fs 0 d.files = .ok h)
    {new : List String} (distinct : ((d.files ++ new).map Path.components).Nodup)
    (hadd : d.addFiles now fs t dimensions (ofHarvest d.created s dimensions d.files h).2 new =
      .ok (d', space)) : ∃ h', d'.Harvested fs t dimensions h' := by
  obtain ⟨g, _, numbered, hg, -, hfiles, -⟩ := addFiles_eq_ok hadd
  have hboth : t.harvest fs 0 d'.files = .ok (h.append g) := by
    rw [hfiles, Settings.harvest_append again, hg]
    rfl
  have fits : ∀ g', t.harvest fs d.files.length new = .ok g' → (h.append g').Fits := by
    intro g' hg'
    cases hg.symm.trans hg'
    exact few.fits hboth
  have added := addFiles_eq (s := s) (h := h) usable numbered fits d.created now
  rw [← hd.document, hg] at added
  have hresult := Except.ok.inj (added.symm.trans hadd)
  refine ⟨h.append g, usable, hboth, hfiles ▸ distinct, ?_⟩
  obtain rfl : _ = d' := congrArg Prod.fst hresult
  rfl

theorem update (hd : d.Harvested fs s dimensions h) (few : d'.Countable fs)
    (updated : d.update now fs t paths = .ok (d', space)) :
    ∃ s' h', d'.Harvested fs s' dimensions h' := by
  have few' : d.Countable fs := few.of_prefix (files_of_update updated) fun _ _ => rfl
  obtain ⟨dims, found, old, usable, hfound, hold, ⟨-, rfl, -⟩ | ⟨-, hadd⟩⟩ :=
    update_eq_ok updated
  · exact ⟨s, h, hd⟩
  · cases hold.symm.trans (hd.toSpace few')
    obtain ⟨rfl, again⟩ := hd.withDocument usable
    exact ⟨_, hd.addFiles few usable again (nodup_unlisted hd.distinct hfound) hadd⟩

end Harvested

/-- Whatever the history of a catalog, it is the catalog of a harvest of all its files. -/
theorem History.harvested (history : History fs d) (few : d.Countable fs) :
    ∃ s dimensions h, d.Harvested fs s dimensions h := by
  -- the files of an earlier catalog are among those of a later one, so it is countable as well
  induction history with
  | build built => exact ⟨_, harvested_of_build built few⟩
  | update _ same updated ih =>
    obtain ⟨s, dimensions, h, hd⟩ := ih (few.of_prefix (files_of_update updated) same)
    obtain ⟨s', h', hd'⟩ := (hd.congr same).update few updated
    exact ⟨s', dimensions, h', hd'⟩

/-- However often a catalog is updated, with whatever paths and settings, it accounts for its
files. -/
theorem History.accounts (history : History fs d) (few : d.Countable fs) : d.Accounts fs := by
  obtain ⟨s, dimensions, h, hd⟩ := history.harvested few
  rw [hd.document]
  exact accounts_ofHarvest hd.harvest hd.distinct few.files (few.fits hd.harvest) d.created

/-- A catalog of a forecast, updated under another policy when the forecast of the day after has
come in with a cut off message behind it. -/
theorem accounts_next_day :
    let last := Message.june 2 ++ [0x47, 0x52, 0x49, 0x42]
    let fs : FileSystem := { root := .directory [("a", .file (some (Message.june 1)))] }
    let fs' : FileSystem :=
      { root := .directory [("a", .file (some (Message.june 1))), ("b", .file (some last))] }
    let s : Settings := { dimensions := ["runtime"] }
    let t : Settings := { index := { duplicatePolicy := .firstWins } }
    ∃ d space d' space', build ⟨0, 0⟩ fs s ["a"] = .ok (d, space) ∧
      d.update ⟨1, 0⟩ fs' t ["b", "a"] = .ok (d', space') ∧ History fs' d' ∧
      d'.Countable fs' ∧ d'.files = ["a", "b"] ∧ d'.scanFaults = 1 ∧ d'.Accounts fs' := by
  intro last fs fs' s t
  let dimensions := [FieldDimension.runtime.dimension]
  let h := (Harvest.ofItems none (scan 0 (Message.june 1))).append {}
  let g := (Harvest.ofItems none (scan 1 last)).append {}
  let d := (ofHarvest ⟨0, 0⟩ s dimensions ["a"] h).1
  have usable : s.fieldDimensions = .ok dimensions := rfl
  have named : s.files fs ["a"] = .ok ["a"] := rfl
  have found : (t.withDocument d).files fs' ["b", "a"] = .ok ["b", "a"] := rfl
  have hh : s.harvest fs 0 ["a"] = .ok h := by
    refine Except.bind_eq_ok_iff.mpr ⟨none, rfl, ?_⟩
    exact Except.bind_eq_ok_iff.mpr ⟨Message.june 1, rfl, rfl⟩
  have hg : (t.withDocument d).harvest fs' 1 ["b"] = .ok g := by
    refine Except.bind_eq_ok_iff.mpr ⟨none, rfl, ?_⟩
    exact Except.bind_eq_ok_iff.mpr ⟨last, rfl, rfl⟩
  have fits : h.Fits := ⟨by decide +kernel, by decide +kernel, by decide +kernel⟩
  have built : build ⟨0, 0⟩ fs s ["a"] = .ok (ofHarvest ⟨0, 0⟩ s dimensions ["a"] h) := by
    have countable : s.Countable fs ["a"] := by
      intro files h' hfiles hh'
      cases named.symm.trans hfiles
      cases hh.symm.trans hh'
      exact fits
    rw [build_eq usable named countable, hh]
    rfl
  have updated : d.update ⟨1, 0⟩ fs' t ["b", "a"] =
      .ok (ofHarvest ⟨1, 0⟩ (t.withDocument d) dimensions ["a", "b"] (h.append g)) := by
    have usable' : (t.withDocument d).fieldDimensions = .ok dimensions := rfl
    have stored := @toSpace_ofHarvest s dimensions ["a"] h (List.cons_ne_nil _ _) fits.fields ⟨0, 0⟩
    have numbered : ["a"].length < fileLimit := by decide
    have fits' : ∀ g, (t.withDocument d).harvest fs' 1 ["b"] = .ok g → (h.append g).Fits := by
      intro g' hg'
      cases hg.symm.trans hg'
      exact ⟨by decide +kernel, by decide +kernel, by decide +kernel⟩
    have added := addFiles_eq (s := s) usable' numbered fits' ⟨0, 0⟩ ⟨1, 0⟩
    rw [show ["a"].length = 1 from rfl, hg] at added
    exact (update_eq usable' found stored ⟨1, 0⟩).trans added
  have history : History fs' (ofHarvest ⟨1, 0⟩ (t.withDocument d) dimensions ["a", "b"]
      (h.append g)).1 := by
    refine .update (.build built) (fun path hpath => ?_) updated
    obtain rfl := List.mem_singleton.mp hpath
    rfl
  have few : (ofHarvest ⟨1, 0⟩ (t.withDocument d) dimensions ["a", "b"]
      (h.append g)).1.Countable fs' :=
    ⟨by decide, by decide +kernel, by decide +kernel⟩
  exact ⟨_, _, _, _, built, updated, history, few, rfl, by decide +kernel, history.accounts few⟩

end Document

end GribCatalog
