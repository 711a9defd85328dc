import GribCatalog.Proofs.Alike
import GribCatalog.Proofs.WellFormed

/-! One tree laid over another. Key by key and at every depth, what the upper tree does not mention
stays, what it mentions replaces or joins, and laying it over once more changes nothing. -/

namespace GribCatalog.Yaml

variable {key key' : Yaml} {members base : List (Yaml × Yaml)}

/-! ### Values of keys -/

def valueOf? (key : Yaml) (members : List (Yaml × Yaml)) : Option Yaml :=
  (members.find? fun m => key.alike m.1).map Prod.snd

@[simp] theorem valueOf?_nil (key : Yaml) : valueOf? key [] = none := rfl

theorem valueOf?_cons (key : Yaml) (m : Yaml × Yaml) (members : List (Yaml × Yaml)) :
    valueOf? key (m :: members) = if key.alike m.1 then some m.2 else valueOf? key members := by
  rw [valueOf?, List.find?_cons]
  cases key.alike m.1 <;> simp [valueOf?]

theorem valueOf?_congr (h : key.alike key' = true) (members : List (Yaml × Yaml)) :
    valueOf? key' members = valueOf? key members := by
  rw [valueOf?, valueOf?, alike_eq h]

theorem valueOf?_eq_none_iff :
    valueOf? key members = none ↔ ∀ m ∈ members, ¬ key.alike m.1 = true := by
  simp [valueOf?]

theorem exists_of_valueOf? {v : Yaml} (h : valueOf? key members = some v) :
    ∃ m ∈ members, key.alike m.1 = true ∧ m.2 = v := by
  obtain ⟨m, hfind, rfl⟩ := Option.map_eq_some_iff.mp h
  exact ⟨m, List.mem_of_find?_eq_some hfind, by simpa using List.find?_some hfind, rfl⟩

theorem valueOf?_of_mem (distinct : DistinctKeys members) {m : Yaml × Yaml} (hm : m ∈ members) :
    valueOf? m.1 members = some m.2 := by
  induction members with
  | nil => cases hm
  | cons n members ih =>
    obtain ⟨hn, hdistinct⟩ := List.pairwise_cons.mp distinct
    rw [valueOf?_cons]
    rcases List.mem_cons.mp hm with rfl | hm
    · rw [if_pos (alike_refl _)]
    · rw [if_neg fun h => hn m hm (alike_symm h), ih hdistinct hm]

/-! ### A single change -/

section

variable {f : Yaml → Yaml} {new : Yaml}

theorem valueOf?_update_of_alike (h : key.alike key' = true) :
    valueOf? key' (update key f new base) = some ((valueOf? key base).elim new f) := by
  rw [valueOf?_congr h]
  induction base with
  | nil => simp [update, valueOf?_cons, alike_refl]
  | cons m base ih =>
    obtain ⟨k, v⟩ := m
    rw [update, valueOf?_cons]
    split
    · next hk => rw [valueOf?_cons, if_pos hk]; rfl
    · next hk => rw [valueOf?_cons, if_neg hk, ih]

theorem valueOf?_update_of_not_alike (h : ¬ key.alike key' = true) :
    valueOf? key' (update key f new base) = valueOf? key' base := by
  have hother (k : Yaml) (hk : key.alike k = true) : ¬ key'.alike k = true := fun hk' =>
    h (alike_trans hk (alike_symm hk'))
  induction base with
  | nil =>
    rw [update, valueOf?_cons, if_neg fun h' => h (alike_symm h')]
  | cons m base ih =>
    obtain ⟨k, v⟩ := m
    rw [update]
    split
    · next hk => rw [valueOf?_cons, valueOf?_cons, if_neg (hother k hk), if_neg (hother k hk)]
    · next hk => rw [valueOf?_cons, valueOf?_cons, ih]

theorem keys_update (key : Yaml) (f : Yaml → Yaml) (new : Yaml) (base : List (Yaml × Yaml)) :
    (update key f new base).map Prod.fst =
      base.map Prod.fst ++ if (valueOf? key base).isNone then [key] else [] := by
  induction base with
  | nil => simp [update]
  | cons m base ih =>
    obtain ⟨k, v⟩ := m
    rw [update, valueOf?_cons]
    split
    · simp
    · simp [ih]

theorem update_eq_self {v : Yaml} (h : valueOf? key base = some v) (hf : f v = v) :
    update key f new base = base := by
  induction base with
  | nil => cases h
  | cons m base ih =>
    obtain ⟨k, w⟩ := m
    rw [valueOf?_cons] at h
    rw [update]
    split at h
    · next hk =>
      cases h
      rw [if_pos hk, hf]
    · next hk => rw [if_neg hk, ih h]

end

/-! ### Mappings -/

/-- The value of a key that has one value above and one below. -/
def layered : Option Yaml → Option Yaml → Option Yaml
  | none, below => below
  | some above, none => some above
  | some above, some below => some (overlay above below)

theorem layered_cases {above below : Option Yaml} {v : Yaml} (h : layered above below = some v) :
    above = none ∧ below = some v ∨ above = some v ∧ below = none ∨
      ∃ a b, above = some a ∧ below = some b ∧ overlay a b = v := by
  cases above with
  | none => exact .inl ⟨rfl, h⟩
  | some a =>
    cases below with
    | none => exact .inr (.inl ⟨h, rfl⟩)
    | some b => exact .inr (.inr ⟨a, b, rfl, rfl, Option.some_inj.mp h⟩)

theorem valueOf?_overlayMembers (distinct : DistinctKeys members) (key : Yaml)
    (base : List (Yaml × Yaml)) :
    valueOf? key (overlayMembers members base) =
      layered (valueOf? key members) (valueOf? key base) := by
  induction members generalizing base with
  | nil => simp [overlayMembers, layered]
  | cons m members ih =>
    obtain ⟨k, v⟩ := m
    obtain ⟨hk, hdistinct⟩ := List.pairwise_cons.mp distinct
    rw [overlayMembers, ih hdistinct, valueOf?_cons]
    by_cases halike : key.alike k = true
    · have hlater : valueOf? key members = none :=
        valueOf?_eq_none_iff.mpr fun n hn h => hk n hn (alike_trans (alike_symm halike) h)
      rw [valueOf?_update_of_alike (alike_symm halike), hlater, if_pos halike,
        valueOf?_congr halike]
      cases valueOf? key base <;> rfl
    · rw [if_neg halike, valueOf?_update_of_not_alike fun h => halike (alike_symm h)]

/-- New keys follow those that were there. -/
theorem keys_overlayMembers (distinct : DistinctKeys members) (base : List (Yaml × Yaml)) :
    (overlayMembers members base).map Prod.fst =
      base.map Prod.fst ++ (members.map Prod.fst).filter fun key => (valueOf? key base).isNone := by
  induction members generalizing base with
  | nil => simp [overlayMembers]
  | cons m members ih =>
    obtain ⟨k, v⟩ := m
    obtain ⟨hk, hdistinct⟩ := List.pairwise_cons.mp distinct
    have hsame : (members.map Prod.fst).filter (fun key => (valueOf? key (update k
        (fun w => overlay v w) v base)).isNone) =
        (members.map Prod.fst).filter fun key => (valueOf? key base).isNone := by
      refine List.filter_congr fun key hkey => ?_
      obtain ⟨n, hn, rfl⟩ := List.mem_map.mp hkey
      rw [valueOf?_update_of_not_alike (hk n hn)]
    rw [overlayMembers, ih hdistinct, keys_update, hsame, List.map_cons, List.filter_cons,
      List.append_assoc]
    split <;> simp

theorem exists_key_of_overlayMembers (distinct : DistinctKeys members) {m : Yaml × Yaml}
    (hm : m ∈ overlayMembers members base) : (∃ n ∈ base, n.1 = m.1) ∨ ∃ n ∈ members, n.1 = m.1 := by
  have hkey := List.mem_map_of_mem (f := Prod.fst) hm
  rw [keys_overlayMembers distinct, List.mem_append] at hkey
  rcases hkey with hkey | hkey
  · exact .inl (List.mem_map.mp hkey)
  · exact .inr (List.mem_map.mp (List.mem_filter.mp hkey).1)

theorem overlayMembers_eq_self
    (h : ∀ m ∈ members, ∃ v, valueOf? m.1 base = some v ∧ overlay m.2 v = v) :
    overlayMembers members base = base := by
  induction members with
  | nil => rw [overlayMembers]
  | cons m members ih =>
    obtain ⟨k, v⟩ := m
    obtain ⟨⟨w, hw, hself⟩, hmembers⟩ := List.forall_mem_cons.mp h
    rw [overlayMembers, update_eq_self hw hself, ih hmembers]

/-! ### Whole trees -/

def isMapping : Yaml → Bool
  | mapping _ => true
  | _ => false

theorem overlay_null (base : Yaml) : overlay null base = base := by
  cases base <;> rfl

theorem overlay_of_not_mapping {tree base : Yaml} (some : tree ≠ null)
    (h : ¬ (tree.isMapping = true ∧ base.isMapping = true)) : overlay tree base = tree := by
  cases tree <;> cases base <;> simp_all [overlay, isMapping]

theorem WellFormed.overlay_self {tree : Yaml} (h : tree.WellFormed) : overlay tree tree = tree := by
  induction h with
  | null | bool _ | integer _ | real _ | text _ | sequence _ | tagged _ => simp [overlay]
  | mapping distinct _ _ _ ih =>
    rw [overlay, overlayMembers_eq_self fun m hm => ⟨m.2, valueOf?_of_mem distinct hm, ih m hm⟩]

theorem WellFormed.overlay_overlay {tree : Yaml} (h : tree.WellFormed) (base : Yaml) :
    overlay tree (overlay tree base) = overlay tree base := by
  induction h generalizing base with
  | null => rw [overlay_null, overlay_null]
  | bool _ | integer _ | real _ | text _ | sequence _ | tagged _ => simp [overlay]
  | @mapping members distinct keys values _ ih =>
    by_cases hbase : base.isMapping = true
    · cases base with
      | mapping base =>
        rw [overlay, overlay, overlayMembers_eq_self fun m hm => ?_]
        rw [valueOf?_overlayMembers distinct, valueOf?_of_mem distinct hm]
        cases valueOf? m.1 base with
        | none => exact ⟨m.2, rfl, (values m hm).overlay_self⟩
        | some w => exact ⟨overlay m.2 w, rfl, ih m hm w⟩
      | _ => cases hbase
    · rw [overlay_of_not_mapping (by simp) fun h => hbase h.2]
      exact (WellFormed.mapping distinct keys values).overlay_self

theorem distinctKeys_overlayMembers (distinct : DistinctKeys members) (distinct' : DistinctKeys base) :
    DistinctKeys (overlayMembers members base) := by
  have hkeys (ms : List (Yaml × Yaml)) :
      DistinctKeys ms ↔ (ms.map Prod.fst).Pairwise fun k l => ¬ k.alike l := by
    rw [DistinctKeys, List.pairwise_map]
  rw [hkeys, keys_overlayMembers distinct, List.pairwise_append]
  refine ⟨(hkeys base).mp distinct', ((hkeys members).mp distinct).filter _, ?_⟩
  intro k hk l hl
  obtain ⟨m, hm, rfl⟩ := List.mem_map.mp hk
  have hnew : valueOf? l base = none := by simpa using (List.mem_filter.mp hl).2
  exact fun h => valueOf?_eq_none_iff.mp hnew m hm (alike_symm h)

theorem WellFormed.overlay {tree base : Yaml} (h : tree.WellFormed) (h' : base.WellFormed) :
    (Yaml.overlay tree base).WellFormed := by
  induction h generalizing base with
  | null => rwa [overlay_null]
  | bool b => exact .bool b
  | integer n => exact .integer n
  | real x => exact .real x
  | text s => exact .text s
  | sequence items => exact .sequence items
  | tagged value => exact .tagged value
  | @mapping members distinct keys values _ ih =>
    cases h' with
    | @mapping base distinct' keys' values' =>
      have hdistinct := distinctKeys_overlayMembers distinct distinct'
      rw [Yaml.overlay]
      refine .mapping hdistinct (fun m hm => ?_) fun m hm => ?_
      · rcases exists_key_of_overlayMembers distinct hm with ⟨n, hn, heq⟩ | ⟨n, hn, heq⟩
        · exact heq ▸ keys' n hn
        · exact heq ▸ keys n hn
      · have hvalue := valueOf?_of_mem hdistinct hm
        rw [valueOf?_overlayMembers distinct] at hvalue
        rcases layered_cases hvalue with ⟨-, hbelow⟩ | ⟨habove, -⟩ | ⟨a, b, habove, hbelow, heq⟩
        · obtain ⟨n, hn, -, heq⟩ := exists_of_valueOf? hbelow
          exact heq ▸ values' n hn
        · obtain ⟨n, hn, -, heq⟩ := exists_of_valueOf? habove
          exact heq ▸ values n hn
        · obtain ⟨n, hn, -, rfl⟩ := exists_of_valueOf? habove
          obtain ⟨n', hn', -, rfl⟩ := exists_of_valueOf? hbelow
          exact heq ▸ ih n hn (values' n' hn')
    | _ => exact .mapping distinct keys values

/-! ### Every depth -/

/-- The tree that a path of keys leads to. -/
def at? : List Yaml → Yaml → Option Yaml
  | [], tree => some tree
  | key :: path, mapping members => (valueOf? key members).bind (at? path)
  | _ :: _, _ => none

theorem wellFormed_of_valueOf? {value : Yaml} (h : (mapping members).WellFormed)
    (hvalue : valueOf? key members = some value) : value.WellFormed := by
  obtain ⟨m, hm, -, rfl⟩ := exists_of_valueOf? hvalue
  exact (wellFormed_mapping_iff.mp h).2.2 m hm

/-- Where a path leads on in both trees, what it leads to is laid over each other. -/
theorem at?_overlay {path : List Yaml} {tree base t b : Yaml} (wellFormed : tree.WellFormed)
    (ht : at? path tree = some t) (hb : at? path base = some b) :
    t.WellFormed ∧ at? path (overlay tree base) = some (overlay t b) := by
  induction path generalizing tree base with
  | nil =>
    cases ht
    cases hb
    exact ⟨wellFormed, rfl⟩
  | cons key path ih =>
    cases tree with
    | mapping members =>
      cases base with
      | mapping base =>
        obtain ⟨above, habove, ht⟩ := Option.bind_eq_some_iff.mp ht
        obtain ⟨below, hbelow, hb⟩ := Option.bind_eq_some_iff.mp hb
        obtain ⟨hsound, hat⟩ := ih (wellFormed_of_valueOf? wellFormed habove) ht hb
        refine ⟨hsound, ?_⟩
        have distinct := (wellFormed_mapping_iff.mp wellFormed).1
        rw [overlay, at?, valueOf?_overlayMembers distinct, habove, hbelow]
        exact hat
      | _ => cases hb
    | _ => cases ht

structure Layered (members base merged : List (Yaml × Yaml)) : Prop where
  keys : merged.map Prod.fst =
    base.map Prod.fst ++ (members.map Prod.fst).filter fun key => (valueOf? key base).isNone
  kept : ∀ key old, valueOf? key base = some old →
    valueOf? key members = none ∨ valueOf? key members = some null →
      valueOf? key merged = some old
  replaced : ∀ key old new, valueOf? key base = some old → valueOf? key members = some new →
    new ≠ null → ¬ (new.isMapping = true ∧ old.isMapping = true) →
      valueOf? key merged = some new
  added : ∀ key, valueOf? key base = none → valueOf? key merged = valueOf? key members

theorem layered_overlayMembers (distinct : DistinctKeys members) (base : List (Yaml × Yaml)) :
    Layered members base (overlayMembers members base) where
  keys := keys_overlayMembers distinct base
  kept key old hold hnew := by
    rw [valueOf?_overlayMembers distinct, hold]
    rcases hnew with hnew | hnew
    · rw [hnew, layered]
    · rw [hnew, layered, overlay_null]
  replaced key old new hold hnew some hmappings := by
    rw [valueOf?_overlayMembers distinct, hold, hnew, layered, overlay_of_not_mapping some hmappings]
  added key hold := by
    rw [valueOf?_overlayMembers distinct, hold]
    cases valueOf? key members <;> rfl

/-- No tree that is read repeats a key, and neither does one laid over another. Wherever a path
leads to a mapping in both trees, a key that is not mentioned above or is null there keeps its value,
any other value takes the place of the old one unless both are mappings, and new keys are added.
Null leaves a whole tree as it is, anything else that does not meet a mapping with a mapping replaces
it, and laying the same tree over the outcome changes nothing. -/
theorem overlay_layers :
    (∀ content tree, parse? content = some tree → tree.WellFormed) ∧
    ∀ tree base : Yaml, tree.WellFormed →
      (base.WellFormed → (overlay tree base).WellFormed) ∧
      (∀ path members old, at? path tree = some (mapping members) →
        at? path base = some (mapping old) →
          ∃ merged, at? path (overlay tree base) = some (mapping merged) ∧
            Layered members old merged) ∧
      (tree = null → overlay tree base = base) ∧
      (tree ≠ null → ¬ (tree.isMapping = true ∧ base.isMapping = true) →
        overlay tree base = tree) ∧
      overlay tree (overlay tree base) = overlay tree base := by
  refine ⟨fun _ _ => wellFormed_of_parse?, fun tree base wellFormed => ?_⟩
  refine ⟨wellFormed.overlay, fun path members old htree hbase => ?_, ?_, overlay_of_not_mapping,
    wellFormed.overlay_overlay base⟩
  · obtain ⟨hsound, hat⟩ := at?_overlay wellFormed htree hbase
    exact ⟨_, hat, layered_overlayMembers (wellFormed_mapping_iff.mp hsound).1 old⟩
  · rintro rfl
    exact overlay_null base

/-- Settings below, and above them a list in another list's place, a policy, a null, and a new key
with a null inside. -/
theorem overlay_layers_settings :
    let base := mapping [(text "index", mapping [(text "policy", text "last-wins"),
      (text "limit", integer 20)]), (text "parameter", text "TMP"),
      (text "dimensions", sequence [text "time", text "vertical"])]
    let tree := mapping [(text "dimensions", sequence [text "ensemble"]),
      (text "index", mapping [(text "policy", text "first-wins")]), (text "parameter", null),
      (text "extra", mapping [(text "note", null)])]
    parse? "a: ~" = some (mapping [(text "a", null)]) ∧ (mapping [(text "a", null)]).WellFormed ∧
      tree.WellFormed ∧ base.WellFormed ∧ (overlay tree base).WellFormed ∧
      at? [text "index"] tree = some (mapping [(text "policy", text "first-wins")]) ∧
      at? [text "index"] base =
        some (mapping [(text "policy", text "last-wins"), (text "limit", integer 20)]) ∧
      (∃ merged, at? [text "index"] (overlay tree base) = some (mapping merged) ∧
        valueOf? (text "limit") merged = some (integer 20)) ∧
      overlay null base = base ∧
      tree ≠ null ∧ ¬ (tree.isMapping = true ∧ (sequence [base]).isMapping = true) ∧
      overlay tree (sequence [base]) = tree ∧
      overlay tree (overlay tree base) = overlay tree base := by
  intro base tree
  have hread : parse? "a: ~" = some (mapping [(text "a", null)]) := rfl
  have wellFormed : tree.WellFormed := by
    simp only [tree, wellFormed_mapping_iff]
    exact ⟨by decide, by simp, by simp; decide⟩
  have wellFormed' : base.WellFormed := by
    simp only [base, wellFormed_mapping_iff]
    exact ⟨by decide, by simp, by simp; decide⟩
  have htree : at? [text "index"] tree = some (mapping [(text "policy", text "first-wins")]) := rfl
  have hbase : at? [text "index"] base =
      some (mapping [(text "policy", text "last-wins"), (text "limit", integer 20)]) := rfl
  have hnull : tree ≠ null := by simp [tree]
  have hsequence : ¬ (tree.isMapping = true ∧ (sequence [base]).isMapping = true) := by
    simp [isMapping]
  obtain ⟨hsound, hpaths, -, -, htwice⟩ := overlay_layers.2 tree base wellFormed
  obtain ⟨merged, hmerged, hlayered⟩ := hpaths [text "index"] _ _ htree hbase
  have hlimit : valueOf? (text "limit") merged = some (integer 20) :=
    hlayered.kept _ _ rfl (.inl rfl)
  exact ⟨hread, overlay_layers.1 _ _ hread, wellFormed, wellFormed', hsound wellFormed', htree, hbase,
    ⟨merged, hmerged, hlimit⟩, (overlay_layers.2 null base .null).2.2.1 rfl, hnull, hsequence,
    (overlay_layers.2 tree _ wellFormed).2.2.2.1 hnull hsequence, htwice⟩

end GribCatalog.Yaml
