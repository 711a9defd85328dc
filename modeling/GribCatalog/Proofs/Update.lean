import GribCatalog.Catalog.Build
import GribCatalog.Proofs.Extension

/-! Updating a catalog. The files of two lists of paths are those of the first and then
the new ones of the second, their fields are numbered on, and the space is extended:
so an update of a catalog comes to the catalog of all the paths. -/

namespace GribCatalog

namespace Path

theorem any_same_iff {known : List String} {path : String} :
    known.any (same path) = true ↔ components path ∈ known.map components := by
  simp only [List.any_eq_true, same, decide_eq_true_eq, List.mem_map]
  exact exists_congr fun _ => and_congr_right fun _ => eq_comm

/-- What is fresh depends on the components of the known paths only. -/
theorem fresh_congr {known known' : List String}
    (same_known : ∀ path, known.any (same path) = known'.any (same path)) (paths : List String) :
    fresh known paths = fresh known' paths := by
  induction paths generalizing known known' with
  | nil => rfl
  | cons path paths ih =>
    rw [fresh, fresh, same_known path, ih same_known]
    split
    · rfl
    · refine congrArg _ (ih fun p => ?_)
      rw [List.any_append, List.any_append, same_known p]

theorem fresh_append (known as bs : List String) :
    fresh known (as ++ bs) = fresh known as ++ fresh (known ++ fresh known as) bs := by
  induction as generalizing known with
  | nil => simp [fresh]
  | cons path as ih =>
    rw [List.cons_append, fresh, fresh]
    split
    · exact ih known
    · rw [ih, List.cons_append, List.append_assoc]
      rfl

/-- Paths that are fresh beside others are those of the fresh paths that are none of the others. -/
theorem fresh_known (known seen paths : List String) :
    fresh (known ++ seen) paths =
      (fresh seen paths).filter fun path => !known.any (same path) := by
  induction paths generalizing seen with
  | nil => rfl
  | cons path paths ih =>
    rw [fresh, fresh, List.any_append]
    cases hseen : seen.any (same path) with
    | true => simp [ih]
    | false =>
      cases hknown : known.any (same path) with
      | false => simp [hknown, ih]
      | true =>
        -- the path is dropped on both sides, and being seen makes no difference to the rest
        have hcongr (p : String) :
            (known ++ seen).any (same p) = (known ++ (seen ++ [path])).any (same p) := by
          rw [Bool.eq_iff_iff, any_same_iff, any_same_iff]
          have := any_same_iff.mp hknown
          simp only [List.map_append, List.mem_append, List.map_singleton, List.mem_singleton]
          constructor
          · tauto
          · rintro (h | h | h)
            · exact .inl h
            · exact .inr h
            · exact .inl (h ▸ this)
        simp [hknown, fresh_congr hcongr paths, ih]

end Path

namespace Settings

variable {s : Settings} {fs : FileSystem}

theorem files_eq_ok {paths found : List String} (h : s.files fs paths = .ok found) :
    Path.fresh [] (paths.flatMap (s.filesAt fs)) = found ∧ found ≠ [] := by
  unfold files at h
  split at h
  · cases h
  · next hne =>
    cases h
    exact ⟨rfl, hne⟩

theorem files_append {paths paths' files files' : List String}
    (h : s.files fs paths = .ok files) (h' : s.files fs paths' = .ok files') :
    s.files fs (paths ++ paths') =
      .ok (files ++ files'.filter fun file => !files.any (Path.same file)) := by
  obtain ⟨rfl, hne⟩ := files_eq_ok h
  obtain ⟨rfl, -⟩ := files_eq_ok h'
  have happend := Path.fresh_append [] (paths.flatMap (s.filesAt fs))
    (paths'.flatMap (s.filesAt fs))
  rw [List.nil_append, ← List.flatMap_append] at happend
  have hknown := Path.fresh_known (Path.fresh [] (paths.flatMap (s.filesAt fs))) []
    (paths'.flatMap (s.filesAt fs))
  rw [List.append_nil] at hknown
  rw [hknown] at happend
  rw [Settings.files, happend]
  split
  · next hnil => exact absurd (List.append_eq_nil_iff.mp hnil).1 hne
  · rfl

theorem harvestFrom_append (parameter : Option Parameter) (base : Nat) (as bs : List String) :
    harvestFrom fs parameter base (as ++ bs) = (do
      let a ← harvestFrom fs parameter base as
      let b ← harvestFrom fs parameter (base + as.length) bs
      .ok (a.append b)) := by
  induction as generalizing base with
  | nil =>
    simp only [List.nil_append, harvestFrom, List.length_nil, Nat.add_zero]
    cases harvestFrom fs parameter base bs with
    | error e => rfl
    | ok b => simp [bind, Except.bind, Harvest.append]
  | cons path as ih =>
    have hbase : base + 1 + as.length = base + (path :: as).length := by
      rw [List.length_cons]
      omega
    rw [List.cons_append, harvestFrom, harvestFrom, ih, hbase]
    cases fs.gribBytes path with
    | error e => rfl
    | ok bytes =>
      cases harvestFrom fs parameter (base + 1) as with
      | error e => rfl
      | ok a =>
        cases harvestFrom fs parameter (base + (path :: as).length) bs with
        | error e => rfl
        | ok b => simp [bind, Except.bind, Harvest.append, Nat.add_assoc]

theorem harvest_append {as bs : List String} {a : Harvest} (h : s.harvest fs 0 as = .ok a) :
    s.harvest fs 0 (as ++ bs) = (s.harvest fs as.length bs).map a.append := by
  obtain ⟨parameter, hparameter, h⟩ := Except.bind_eq_ok_iff.mp h
  simp only [harvest, hparameter, bind, Except.bind, harvestFrom_append, h, Nat.zero_add]
  cases harvestFrom fs parameter as.length bs <;> rfl

theorem exists_harvestFrom {parameter : Option Parameter} {files : List String}
    (readable : ∀ file ∈ files, ∃ bs, fs.gribBytes file = .ok bs) (base : Nat) :
    ∃ h, harvestFrom fs parameter base files = .ok h := by
  induction files generalizing base with
  | nil => exact ⟨{}, rfl⟩
  | cons file files ih =>
    rw [List.forall_mem_cons] at readable
    obtain ⟨bs, hbs⟩ := readable.1
    obtain ⟨h, hh⟩ := ih readable.2 (base + 1)
    exact ⟨_, by rw [harvestFrom, hbs, hh]; rfl⟩

theorem exists_harvest {files new : List String} {h : Harvest}
    (hh : s.harvest fs 0 files = .ok h)
    (readable : ∀ file ∈ new, ∃ bs, fs.gribBytes file = .ok bs) (base : Nat) :
    ∃ g, s.harvest fs base new = .ok g := by
  obtain ⟨parameter, hparameter, -⟩ := Except.bind_eq_ok_iff.mp hh
  obtain ⟨g, hg⟩ := @exists_harvestFrom fs parameter new readable base
  exact ⟨g, Except.bind_eq_ok_iff.mpr ⟨parameter, hparameter, hg⟩⟩

theorem fieldDimensions_eq_ok {dimensions : List (Dimension Field)}
    (h : s.fieldDimensions = .ok dimensions) :
    s.index.validate = .ok () ∧ dimensions ≠ [] ∧ ∀ d ∈ dimensions, d.Ordered := by
  obtain ⟨⟨⟩, hvalid, hnames⟩ := Except.bind_eq_ok_iff.mp h
  rw [Except.mapError_eq_ok_iff] at hvalid hnames
  unfold validate at hvalid
  split at hvalid
  · cases hvalid
  · next hindex =>
    refine ⟨hindex, ?_, fun d hd => ?_⟩
    · rintro rfl
      have hlength := Except.length_of_mapM_eq_ok hnames
      rw [List.length_nil, List.length_eq_zero_iff] at hlength
      rw [if_pos hlength] at hvalid
      split at hvalid <;> cases hvalid
    · obtain ⟨name, -, hname⟩ := Except.mem_of_mapM_eq_ok hnames hd
      obtain ⟨f, -, rfl⟩ := Except.map_eq_ok_iff.mp hname
      exact f.ordered

end Settings

namespace Report

variable {ρ : Type} [Located ρ]

def ofRecords (dimensions : List (Dimension ρ)) (records : List ρ)
    (policy : DuplicatePolicy) : Report where
  seen := records.length
  indexed := (Space.ofRecords dimensions records policy).entries.length
  skipped := Survey.failures dimensions 0 records
  duplicates := Cell.duplicates (Space.ofRecords dimensions records policy).cells

/-- The report on more records adds to that on the first what an extension has to report, which
goes by its own policy. -/
theorem merge_ofRecords (dimensions : List (Dimension ρ)) {as bs : List ρ}
    (fits : (as ++ bs).length < wordLimit) (policy policy' : DuplicatePolicy) :
    (ofRecords dimensions as policy).merge
      { seen := bs.length
        indexed := (Placement.entriesOf (Dimension.gathered dimensions (as ++ bs))
          as.length bs).length
        skipped := Survey.failures dimensions as.length bs
        duplicates := Cell.duplicates (Space.ofRecords dimensions (as ++ bs) policy').cells } =
      ofRecords dimensions (as ++ bs) policy' := by
  have hold : (Space.ofRecords dimensions as policy).entries.length =
      as.countP (Dimension.allRead dimensions) :=
    Placement.length_entriesOf dimensions (fun _ h => h) 0
  have hall : (Space.ofRecords dimensions (as ++ bs) policy').entries.length =
      (as ++ bs).countP (Dimension.allRead dimensions) :=
    Placement.length_entriesOf dimensions (fun _ h => h) 0
  have hnew := Placement.length_entriesOf dimensions
    (fun r (h : r ∈ bs) => List.mem_append_right as h) as.length
  have hseen : (bs.length + as.length) % wordLimit = (as ++ bs).length := by
    rw [Nat.add_comm, ← List.length_append, Nat.mod_eq_of_lt fits]
  have hindexed : (bs.countP (Dimension.allRead dimensions) +
      as.countP (Dimension.allRead dimensions)) % wordLimit =
        (as ++ bs).countP (Dimension.allRead dimensions) := by
    rw [Nat.add_comm, ← List.countP_append]
    exact Nat.mod_eq_of_lt (Nat.lt_of_le_of_lt List.countP_le_length fits)
  have hskipped := Survey.failures_append dimensions 0 as bs
  rw [Nat.zero_add] at hskipped
  simp only [Report.merge, ofRecords, hold, hall, hnew, hseen, hindexed, hskipped, List.nil_append]

end Report

structure Harvest.Fits (h : Harvest) : Prop where
  fields : h.fields.length < wordLimit
  scanFaults : h.scanFaults < wordLimit
  filtered : h.filtered < wordLimit

/-- Words count what is harvested from the files that paths stand for, as they do with all that is
in memory. -/
def Settings.Countable (s : Settings) (fs : FileSystem) (paths : List String) : Prop :=
  ∀ files h, s.files fs paths = .ok files → s.harvest fs 0 files = .ok h → h.Fits

namespace Document

def ofHarvest (now : Instant) (s : Settings) (dimensions : List (Dimension Field))
    (files : List String) (h : Harvest) : Document × Space :=
  let space := Space.ofRecords dimensions h.fields s.index.duplicatePolicy
  ({ created := now, files, dimensions := s.dimensions, parameter := s.parameter
     report := Report.ofRecords dimensions h.fields s.index.duplicatePolicy
     scanFaults := h.scanFaults, filtered := h.filtered
     space := space.snapshot }, space)

variable {s : Settings} {fs : FileSystem} {dimensions : List (Dimension Field)}
  {files : List String} {h : Harvest}

theorem build_eq (hdimensions : s.fieldDimensions = .ok dimensions) {paths : List String}
    (hfiles : s.files fs paths = .ok files) (fits : s.Countable fs paths) (now : Instant) :
    build now fs s paths =
      ((s.harvest fs 0 files).mapError CatalogFault.inputs).map
        (ofHarvest now s dimensions files) := by
  obtain ⟨hvalid, hne, -⟩ := Settings.fieldDimensions_eq_ok hdimensions
  simp only [build, hdimensions, hfiles, bind, Except.bind, Except.mapError_ok]
  cases hh : s.harvest fs 0 files with
  | error e => rfl
  | ok h =>
    simp only [Except.mapError_ok, Space.build_eq hne hvalid (fits files h hfiles hh).fields]
    rfl

theorem build_eq_ok {paths : List String} {now : Instant} {result : Document × Space}
    (built : build now fs s paths = .ok result) (fits : s.Countable fs paths) :
    ∃ dimensions files h, s.fieldDimensions = .ok dimensions ∧ s.files fs paths = .ok files ∧
      s.harvest fs 0 files = .ok h ∧ result = ofHarvest now s dimensions files h := by
  obtain ⟨dimensions, hdimensions, hbuilt⟩ := Except.bind_eq_ok_iff.mp built
  obtain ⟨files, hfiles, -⟩ := Except.bind_eq_ok_iff.mp hbuilt
  rw [Except.mapError_eq_ok_iff] at hfiles
  rw [build_eq hdimensions hfiles fits, Except.map_eq_ok_iff] at built
  obtain ⟨h, hh, rfl⟩ := built
  exact ⟨dimensions, files, h, hdimensions, hfiles, Except.mapError_eq_ok_iff.mp hh, rfl⟩

/-- Adding files harvests them and makes the catalog of both harvests, whatever the settings that
the first was made under. -/
theorem addFiles_eq {t : Settings} (hdimensions : t.fieldDimensions = .ok dimensions)
    (numbered : files.length < fileLimit) {new : List String}
    (fits : ∀ g, t.harvest fs files.length new = .ok g → (h.append g).Fits) (now now' : Instant) :
    (ofHarvest now s dimensions files h).1.addFiles now' fs t dimensions
        (ofHarvest now s dimensions files h).2 new =
      ((t.harvest fs files.length new).mapError CatalogFault.inputs).map fun g =>
        ofHarvest now' t dimensions (files ++ new) (h.append g) := by
  obtain ⟨hvalid, hne, hordered⟩ := Settings.fieldDimensions_eq_ok hdimensions
  refine (if_neg (Nat.not_le.mpr numbered)).trans ?_
  have hlength : (ofHarvest now s dimensions files h).1.files.length = files.length := rfl
  rw [hlength]
  cases hg : t.harvest fs files.length new with
  | error e => rfl
  | ok g =>
    have hfits := fits g hg
    have hextend := Space.extend_ofRecords hne hordered hvalid hfits.fields
      s.index.duplicatePolicy
    have hreport := Report.merge_ofRecords dimensions hfits.fields s.index.duplicatePolicy
      t.index.duplicatePolicy
    have hfaults : (h.scanFaults + g.scanFaults) % wordLimit = h.scanFaults + g.scanFaults :=
      Nat.mod_eq_of_lt hfits.scanFaults
    have hfiltered : (h.filtered + g.filtered) % wordLimit = h.filtered + g.filtered :=
      Nat.mod_eq_of_lt hfits.filtered
    refine Except.bind_eq_ok_iff.mpr ⟨g, rfl, ?_⟩
    refine Except.bind_eq_ok_iff.mpr ⟨_, Except.mapError_eq_ok_iff.mpr hextend, ?_⟩
    simp only [ofHarvest, Harvest.append, hreport, hfaults, hfiltered]

theorem addFiles_ofHarvest (hdimensions : s.fieldDimensions = .ok dimensions)
    (numbered : files.length < fileLimit) {new : List String}
    (fits : ∀ g, s.harvest fs files.length new = .ok g → (h.append g).Fits) (now now' : Instant) :
    (ofHarvest now s dimensions files h).1.addFiles now' fs s dimensions
        (ofHarvest now s dimensions files h).2 new =
      ((s.harvest fs files.length new).mapError CatalogFault.inputs).map fun g =>
        ofHarvest now' s dimensions (files ++ new) (h.append g) :=
  addFiles_eq hdimensions numbered fits now now'

def unlisted (d : Document) (files : List String) : List String :=
  files.filter fun file => !d.files.any (Path.same file)

theorem update_eq_ok {d d' : Document} {now : Instant} {paths : List String} {new : Space}
    (h : d.update now fs s paths = .ok (d', new)) :
    ∃ dimensions found old, (s.withDocument d).fieldDimensions = .ok dimensions ∧
      (s.withDocument d).files fs paths = .ok found ∧ d.toSpace = .ok old ∧
      (d.unlisted found = [] ∧ d' = d ∧ new = old ∨
        d.unlisted found ≠ [] ∧
          d.addFiles now fs (s.withDocument d) dimensions old (d.unlisted found) =
            .ok (d', new)) := by
  obtain ⟨dimensions, hdimensions, h⟩ := Except.bind_eq_ok_iff.mp h
  obtain ⟨found, hfound, h⟩ := Except.bind_eq_ok_iff.mp h
  obtain ⟨old, hold, h⟩ := Except.bind_eq_ok_iff.mp h
  rw [Except.mapError_eq_ok_iff] at hfound hold
  refine ⟨dimensions, found, old, hdimensions, hfound, hold, ?_⟩
  split at h
  · next hnone =>
    cases h
    exact .inl ⟨hnone, rfl, rfl⟩
  · next hsome => exact .inr ⟨hsome, h⟩

/-- Files that have been added have numbers and are listed behind the others, and the stored space
is extended by their fields. -/
theorem addFiles_eq_ok {d d' : Document} {now : Instant} {old new : Space}
    (h : d.addFiles now fs s dimensions old files = .ok (d', new)) :
    ∃ harvest report, d.files.length < fileLimit ∧
      s.harvest fs d.files.length files = .ok harvest ∧
      old.extend dimensions harvest.fields s.index = .ok (new, report) ∧
      d'.files = d.files ++ files ∧ d'.space = new.snapshot := by
  unfold addFiles at h
  dsimp only at h
  split at h
  · cases h
  next hnumbered =>
  obtain ⟨harvest, hharvest, h⟩ := Except.bind_eq_ok_iff.mp h
  obtain ⟨⟨space, report⟩, hextend, h⟩ := Except.bind_eq_ok_iff.mp h
  rw [Except.mapError_eq_ok_iff] at hharvest hextend
  cases h
  exact ⟨harvest, report, Nat.lt_of_not_le hnumbered, hharvest, hextend, rfl, rfl⟩

theorem toSpace_ofHarvest (nonempty : dimensions ≠ []) (fits : h.fields.length < wordLimit)
    (now : Instant) :
    (ofHarvest now s dimensions files h).1.toSpace = .ok (ofHarvest now s dimensions files h).2 :=
  Space.restore_snapshot_ofRecords nonempty fits s.index.duplicatePolicy

theorem update_eq {d : Document} {paths found : List String} {old : Space}
    (hdimensions : (s.withDocument d).fieldDimensions = .ok dimensions)
    (hfound : (s.withDocument d).files fs paths = .ok found) (hold : d.toSpace = .ok old)
    (now : Instant) :
    d.update now fs s paths =
      match d.unlisted found with
      | [] => .ok (d, old)
      | new => d.addFiles now fs (s.withDocument d) dimensions old new := by
  simp only [update, hdimensions, hfound, hold, bind, Except.bind, Except.mapError_ok]
  rfl

/-- What an update does with the catalog of a harvest. -/
theorem update_ofHarvest (hdimensions : s.fieldDimensions = .ok dimensions)
    (fits : h.fields.length < wordLimit) {paths found : List String}
    (hfound : s.files fs paths = .ok found) (now now' : Instant) :
    (ofHarvest now s dimensions files h).1.update now' fs s paths =
      match found.filter fun file => !files.any (Path.same file) with
      | [] => .ok (ofHarvest now s dimensions files h)
      | new => (ofHarvest now s dimensions files h).1.addFiles now' fs s dimensions
          (ofHarvest now s dimensions files h).2 new := by
  obtain ⟨-, hne, -⟩ := Settings.fieldDimensions_eq_ok hdimensions
  have hsettings : s.withDocument (ofHarvest now s dimensions files h).1 = s := rfl
  exact update_eq (hsettings ▸ hdimensions) (hsettings ▸ hfound)
    (toSpace_ofHarvest hne fits now) now'

def undated (result : Document × Space) : Document × Space :=
  ({ result.1 with created := ⟨0, 0⟩ }, result.2)

/-- An update of the catalog of some paths comes to the catalog of these and the new ones, or to
the fault of a file that cannot be read. There have to be numbers for the files that are added, so
the files before them have to be fewer than words of 32 bits. -/
theorem update_eq_rebuild {paths paths' files' : List String} {now : Instant} {d : Document}
    {space : Space} (built : build now fs s paths = .ok (d, space))
    (found : s.files fs paths' = .ok files') (numbered : d.files.length < fileLimit)
    (fits : s.Countable fs paths) (fits' : s.Countable fs (paths ++ paths'))
    (now' now'' : Instant) :
    (d.update now' fs s paths').map undated =
        (build now'' fs s (paths ++ paths')).map undated ∧
      ((∀ file ∈ files', ∃ bs, fs.gribBytes file = .ok bs) →
        ∃ result, d.update now' fs s paths' = .ok result) := by
  obtain ⟨dimensions, files, h, hdimensions, hfiles, hh, hresult⟩ := build_eq_ok built fits
  obtain rfl : d = (ofHarvest now s dimensions files h).1 := congrArg Prod.fst hresult
  have hnumbered : files.length < fileLimit := numbered
  have hall := Settings.files_append hfiles found
  rw [update_ofHarvest hdimensions (fits files h hfiles hh).fields found]
  cases hnew : files'.filter fun file => !files.any (Path.same file) with
  | nil =>
    rw [hnew, List.append_nil] at hall
    rw [build_eq hdimensions hall fits', hh]
    exact ⟨rfl, fun _ => ⟨_, rfl⟩⟩
  | cons file new =>
    rw [hnew] at hall
    have hharvest := @Settings.harvest_append s fs files (file :: new) h hh
    have hfits (g : Harvest) (hg : s.harvest fs files.length (file :: new) = .ok g) :
        (h.append g).Fits := fits' _ _ hall (by rw [hharvest, hg]; rfl)
    have hadded := addFiles_ofHarvest hdimensions hnumbered hfits now now'
    dsimp only
    rw [build_eq hdimensions hall fits', hharvest, hadded]
    constructor
    · cases s.harvest fs files.length (file :: new) <;> rfl
    · intro readable
      have hreadable : ∀ f ∈ file :: new, ∃ bs, fs.gribBytes f = .ok bs := fun f hf =>
        readable f (List.mem_filter.mp (hnew ▸ hf)).1
      obtain ⟨g, hg⟩ := Settings.exists_harvest hh hreadable files.length
      rw [hg]
      exact ⟨_, rfl⟩

/-- A forecast in each of two files, the first of which is named again in the update. -/
theorem update_eq_rebuild_named_again :
    let message : Bytes :=
      [0x47, 0x52, 0x49, 0x42, 0, 0, 0, 2, 0, 0, 0, 0, 0, 0, 0, 75,
        0, 0, 0, 21, 1, 0, 98, 0, 0, 2, 1, 1, 7, 231, 6, 1, 0, 0, 0, 0, 1,
        0, 0, 0, 34, 4, 0, 0, 0, 0, 0, 5, 2, 0, 0, 0, 0, 0, 1, 0, 0, 0, 12,
        100, 0, 0, 0, 1, 244, 255, 0, 0, 0, 0, 0, 0x37, 0x37, 0x37, 0x37]
    let fs : FileSystem :=
      { root := .directory [("a", .file (some message)), ("b", .file (some message))] }
    let s : Settings := { dimensions := ["time", "runtime"] }
    ∃ d space, build ⟨0, 0⟩ fs s ["a"] = .ok (d, space) ∧
      s.files fs ["b", "a"] = .ok ["b", "a"] ∧ d.files.length < fileLimit ∧
      s.Countable fs ["a"] ∧ s.Countable fs ["a", "b", "a"] ∧
      (d.update ⟨1, 0⟩ fs s ["b", "a"]).map undated =
        (build ⟨2, 0⟩ fs s ["a", "b", "a"]).map undated ∧
      ∃ result, d.update ⟨1, 0⟩ fs s ["b", "a"] = .ok result := by
  intro message fs s
  have named : s.files fs ["a"] = .ok ["a"] := rfl
  have found : s.files fs ["b", "a"] = .ok ["b", "a"] := rfl
  have all : s.files fs ["a", "b", "a"] = .ok ["a", "b"] := rfl
  have read (path : String) (h : path = "a" ∨ path = "b") : fs.gribBytes path = .ok message := by
    rcases h with rfl | rfl <;> rfl
  have counted {paths files : List String} {h : Harvest} (hfiles : s.files fs paths = .ok files)
      (hh : s.harvest fs 0 files = .ok h) (fits : h.Fits) : s.Countable fs paths := by
    intro files' h' hfiles' hh'
    cases hfiles.symm.trans hfiles'
    cases hh.symm.trans hh'
    exact fits
  let one : Harvest := (Harvest.ofItems none (scan 0 message)).append {}
  let both := (Harvest.ofItems none (scan 0 message)).append
    ((Harvest.ofItems none (scan 1 message)).append {})
  have hone : s.harvest fs 0 ["a"] = .ok one := by
    refine Except.bind_eq_ok_iff.mpr ⟨none, rfl, ?_⟩
    exact Except.bind_eq_ok_iff.mpr ⟨message, read "a" (.inl rfl), rfl⟩
  have hboth : s.harvest fs 0 ["a", "b"] = .ok both := by
    refine Except.bind_eq_ok_iff.mpr ⟨none, rfl, ?_⟩
    refine Except.bind_eq_ok_iff.mpr ⟨message, read "a" (.inl rfl), ?_⟩
    refine Except.bind_eq_ok_iff.mpr ⟨_, ?_, rfl⟩
    exact Except.bind_eq_ok_iff.mpr ⟨message, read "b" (.inr rfl), rfl⟩
  have fits : one.Fits := ⟨by decide +kernel, by decide +kernel, by decide +kernel⟩
  have fits' : both.Fits := ⟨by decide +kernel, by decide +kernel, by decide +kernel⟩
  have count := counted named hone fits
  have count' := counted all hboth fits'
  have dimensions : s.fieldDimensions = .ok (_ :: _ :: []) := rfl
  have built := build_eq dimensions named count ⟨0, 0⟩
  rw [hone] at built
  have readable : ∀ file ∈ ["b", "a"], ∃ bs, fs.gribBytes file = .ok bs := by
    intro file hfile
    exact ⟨message, read file (by simpa [or_comm] using hfile)⟩
  obtain ⟨same, exists_result⟩ :=
    update_eq_rebuild built found (by decide) count count' ⟨1, 0⟩ ⟨2, 0⟩
  exact ⟨_, _, built, found, by decide, count, count', same, exists_result readable⟩

end Document

end GribCatalog
