import GribCatalog.Yaml.Reader
import Mathlib.Data.List.Basic

/-! Trees in which no mapping repeats a key. A mapping is read only if no key comes twice in it, and
what an anchor names has been read before, so all trees of texts are such. -/

namespace GribCatalog.Yaml

inductive WellFormed : Yaml → Prop
  | null : WellFormed null
  | bool (b : Bool) : WellFormed (bool b)
  | integer (n : Int) : WellFormed (integer n)
  | real (x : Binary64) : WellFormed (real x)
  | text (s : String) : WellFormed (text s)
  | sequence {items : List Yaml} (items' : ∀ a ∈ items, WellFormed a) : WellFormed (sequence items)
  | mapping {members : List (Yaml × Yaml)} (distinct : DistinctKeys members)
      (keys : ∀ m ∈ members, WellFormed m.1) (values : ∀ m ∈ members, WellFormed m.2) :
      WellFormed (mapping members)
  | tagged {tag : String} {value : Yaml} (value' : WellFormed value) : WellFormed (tagged tag value)

attribute [simp] WellFormed.null WellFormed.bool WellFormed.integer WellFormed.real WellFormed.text

@[simp] theorem wellFormed_sequence_iff {items : List Yaml} :
    (sequence items).WellFormed ↔ ∀ a ∈ items, a.WellFormed :=
  ⟨fun h => by cases h; assumption, .sequence⟩

@[simp] theorem wellFormed_mapping_iff {members : List (Yaml × Yaml)} :
    (mapping members).WellFormed ↔
      DistinctKeys members ∧ (∀ m ∈ members, m.1.WellFormed) ∧ ∀ m ∈ members, m.2.WellFormed :=
  ⟨fun h => by cases h; exact ⟨‹_›, ‹_›, ‹_›⟩, fun ⟨distinct, keys, values⟩ =>
    .mapping distinct keys values⟩

variable {handles : Handles} {r : Reading} {v : Yaml}

/-! ### Scalars -/

theorem wellFormed_of_ofPlain? {s : String} (h : ofPlain? s = some v) : v.WellFormed := by
  rw [ofPlain?] at h
  split at h
  · cases h
    exact .null
  · split at h
    · cases h
      exact .bool _
    · obtain ⟨word, hword, rfl⟩ := Option.map_eq_some_iff.mp h
      cases word with
      | none =>
        rw [Option.getD_none]
        split
        · exact .text s
        · cases real? s.toList with
          | none => exact .text s
          | some x => exact .real x
      | some w =>
        rw [wordOf?] at hword
        split at hword
        · split at hword
          · cases hword
            exact .integer _
          · cases hword
        · cases hword

theorem wellFormed_of_ofScalar? {s : Scalar} (h : ofScalar? s = some v) : v.WellFormed := by
  rw [ofScalar?] at h
  split at h
  · exact wellFormed_of_ofPlain? h
  · cases h
    exact .text _

theorem wellFormed_of_wordOf? {cs : List Char} (h : (wordOf? cs).bind id = some v) :
    v.WellFormed := by
  rw [wordOf?] at h
  split at h
  · split at h
    · cases h
      exact .integer _
    · cases h
  · cases h

theorem wellFormed_of_ofTagged? {tag : String} {s : Scalar} (h : ofTagged? tag s = some v) :
    v.WellFormed := by
  rw [ofTagged?] at h
  split at h
  · obtain ⟨b, -, rfl⟩ := Option.map_eq_some_iff.mp h
    exact .bool b
  split at h
  · exact wellFormed_of_wordOf? h
  split at h
  · obtain ⟨x, -, rfl⟩ := Option.map_eq_some_iff.mp h
    exact .real x
  split at h
  · split at h
    · cases h
      exact .null
    · cases h
  · cases h
    exact .text _

theorem wellFormed_of_scalar? {tag : Option String} {s : Scalar} (h : scalar? tag s = some v) :
    v.WellFormed := by
  rw [scalar?] at h
  split at h
  · exact wellFormed_of_ofScalar? h
  · split at h
    · obtain ⟨w, hw, rfl⟩ := Option.map_eq_some_iff.mp h
      exact .tagged (wellFormed_of_ofScalar? hw)
    · exact wellFormed_of_ofTagged? h

/-! ### Collections -/

def MemberWellFormed (m : Yaml × Yaml) : Prop :=
  m.1.WellFormed ∧ m.2.WellFormed

theorem WellFormed.withTag {value : Yaml} (h : value.WellFormed) (tag : Option String) :
    (Yaml.withTag tag value).WellFormed := by
  rw [Yaml.withTag]
  split
  · exact .tagged h
  · exact h

theorem wellFormed_of_mapping? {members : List (Yaml × Yaml)}
    (wellFormed : ∀ m ∈ members, MemberWellFormed m) (h : mapping? members = some v) :
    v.WellFormed := by
  rw [mapping?] at h
  split at h
  · next distinct =>
    cases h
    exact .mapping distinct (fun m hm => (wellFormed m hm).1) fun m hm => (wellFormed m hm).2
  · cases h

theorem wellFormed_pair {m : Yaml × Yaml} (h : MemberWellFormed m) : (mapping [m]).WellFormed :=
  .mapping (List.pairwise_singleton _ m) (by simpa using h.1) (by simpa using h.2)

/-! ### What has been read -/

/-- What anchors name is well formed. -/
def Reading.Sound (r : Reading) : Prop :=
  ∀ a ∈ r.anchors, ∀ v ∈ a.2, v.WellFormed

theorem Reading.Sound.name (sound : r.Sound) {value : Option Yaml}
    (h : ∀ v ∈ value, v.WellFormed) (anchor : Option String) : (r.name anchor value).Sound := by
  cases anchor with
  | none => exact sound
  | some a => exact List.forall_mem_cons.mpr ⟨h, sound⟩

theorem Reading.Sound.lookup (sound : r.Sound) {a : String}
    (h : r.anchors.lookup a = some (some v)) : v.WellFormed := by
  obtain ⟨before, after, hanchors, -⟩ := List.lookup_eq_some_iff.mp h
  exact sound (a, some v) (by simp [hanchors]) v rfl

theorem Reading.Sound.properties (sound : r.Sound) {p : Properties} {r' : Reading}
    (h : properties? handles r = some (p, r')) : r'.Sound := by
  rw [properties?] at h
  split at h
  case h_3 | h_5 =>
    cases h
    exact sound
  all_goals
    obtain ⟨t, -, hr⟩ := Option.map_eq_some_iff.mp h
    cases hr
    exact sound

/-- What a reader gives, if it gives anything, is as it should be, and so are the anchors. -/
def Gives {α : Type} (good : α → Prop) (result : Option (α × Reading)) : Prop :=
  ∀ a r, result = some (a, r) → good a ∧ r.Sound

namespace Gives

variable {α β : Type} {good : α → Prop} {good' : β → Prop} {x : Option (α × Reading)}

theorem none : Gives good none := nofun

theorem some {a : α} (ha : good a) (sound : r.Sound) : Gives good (some (a, r)) := by
  rintro _ _ h
  cases h
  exact ⟨ha, sound⟩

theorem bind (hx : Gives good x) {f : α × Reading → Option (β × Reading)}
    (hf : ∀ a r, good a → r.Sound → Gives good' (f (a, r))) : Gives good' (x.bind f) := by
  intro b r h
  obtain ⟨⟨a, r'⟩, hsome, h⟩ := Option.bind_eq_some_iff.mp h
  obtain ⟨ha, hr'⟩ := hx a r' hsome
  exact hf a r' ha hr' b r h

theorem map (hx : Gives good x) {f : α → β} (hf : ∀ a, good a → good' (f a)) :
    Gives good' (x.map fun p => (f p.1, p.2)) := by
  intro b r h
  obtain ⟨⟨a, r'⟩, hsome, h⟩ := Option.map_eq_some_iff.mp h
  cases h
  obtain ⟨ha, hr⟩ := hx a _ hsome
  exact ⟨hf a ha, hr⟩

theorem alone {x : Option (Yaml × Reading)} (hx : Gives WellFormed x) :
    Gives MemberWellFormed (x.map fun p => ((p.1, null), p.2)) :=
  hx.map (f := fun key => (key, null)) fun _ hkey => ⟨hkey, .null⟩

end Gives

theorem gives_absent (p : Properties) (sound : r.Sound) : Gives WellFormed (absent? p r) := by
  rw [absent?]
  split
  · exact .none
  · intro v r' h
    obtain ⟨w, hw, hpair⟩ := Option.map_eq_some_iff.mp h
    cases hpair
    exact ⟨wellFormed_of_scalar? hw, sound⟩

/-! ### The reader -/

structure GivesWellFormed (handles : Handles) (fuel : Nat) : Prop where
  node : ∀ place r, r.Sound → Gives WellFormed (node? handles fuel place r)
  content : ∀ place p r, r.Sound → Gives WellFormed (content? handles fuel place p r)
  nodeOrNull : ∀ place ends r, r.Sound → Gives WellFormed (nodeOrNull? handles fuel place ends r)
  entries : ∀ closed r, r.Sound → Gives (∀ a ∈ ·, WellFormed a) (entries? handles fuel closed r)
  members : ∀ r, r.Sound → Gives (∀ m ∈ ·, MemberWellFormed m) (members? handles fuel r)
  flowPair : ∀ close r, r.Sound → Gives MemberWellFormed (flowPair? handles fuel close r)
  flowItems : ∀ first r, r.Sound →
    Gives (∀ a ∈ ·, WellFormed a) (flowItems? handles fuel first r)
  flowMembers : ∀ first r, r.Sound →
    Gives (∀ m ∈ ·, MemberWellFormed m) (flowMembers? handles fuel first r)

section

variable {fuel : Nat} (ih : GivesWellFormed handles fuel)
include ih

theorem gives_node (place : Place) (sound : r.Sound) :
    Gives WellFormed (node? handles (fuel + 1) place r) := by
  rw [node?]
  split
  · intro v r' h
    obtain ⟨value, hlookup, h⟩ := Option.bind_eq_some_iff.mp h
    obtain ⟨w, rfl, h⟩ := Option.bind_eq_some_iff.mp h
    cases h
    exact ⟨sound.lookup hlookup, sound⟩
  · intro v r' h
    obtain ⟨⟨p, r₁⟩, hp, h⟩ := Option.bind_eq_some_iff.mp h
    obtain ⟨⟨w, r₂⟩, hw, h⟩ := Option.bind_eq_some_iff.mp h
    cases h
    have hnamed : (r₁.name p.anchor none).Sound := (sound.properties hp).name (by simp) _
    obtain ⟨hv, hr₂⟩ := ih.content place p _ hnamed _ _ hw
    exact ⟨hv, hr₂.name (by simpa using hv) _⟩

theorem gives_content (place : Place) (p : Properties) (sound : r.Sound) :
    Gives WellFormed (content? handles (fuel + 1) place p r) := by
  have hitems {x : Option (List Yaml × Reading)} (hx : Gives (∀ a ∈ ·, WellFormed a) x) :
      Gives WellFormed ((x.map fun y => (sequence y.1, y.2)).map fun y => (withTag p.tag y.1, y.2)) :=
    (hx.map fun _ => WellFormed.sequence).map fun _ h => WellFormed.withTag h p.tag
  have hmembers {x : Option (List (Yaml × Yaml) × Reading)}
      (hx : Gives (∀ m ∈ ·, MemberWellFormed m) x) :
      Gives WellFormed ((x.bind fun y => (mapping? y.1).map fun m => (m, y.2)).map
        fun y => (withTag p.tag y.1, y.2)) := by
    refine .map (hx.bind fun members r hgood hr => ?_) fun _ h => WellFormed.withTag h p.tag
    intro v r' h
    obtain ⟨w, hw, hpair⟩ := Option.map_eq_some_iff.mp h
    cases hpair
    exact ⟨wellFormed_of_mapping? hgood hw, hr⟩
  rw [content?]
  split
  · split
    · exact hitems (ih.entries false r sound)
    · exact gives_absent p sound
  · intro v r' h
    obtain ⟨w, hw, hpair⟩ := Option.map_eq_some_iff.mp h
    cases hpair
    exact ⟨wellFormed_of_scalar? hw, sound⟩
  · exact hitems (ih.flowItems true r.next sound)
  · exact hmembers (ih.flowMembers true r.next sound)
  · split
    · exact gives_absent p sound
    · exact hitems (ih.entries true r.next sound)
  · split
    · exact gives_absent p sound
    · exact hmembers (ih.members r.next sound)
  · exact gives_absent p sound

theorem gives_nodeOrNull (place : Place) (ends : List Token) (sound : r.Sound) :
    Gives WellFormed (nodeOrNull? handles (fuel + 1) place ends r) := by
  rw [nodeOrNull?]
  split
  · exact .some .null sound
  · exact ih.node place r sound

theorem gives_entries (closed : Bool) (sound : r.Sound) :
    Gives (∀ a ∈ ·, WellFormed a) (entries? handles (fuel + 1) closed r) := by
  rw [entries?]
  split
  · refine (ih.nodeOrNull _ _ r.next sound).bind fun item r hitem hr => ?_
    refine (ih.entries closed r hr).bind fun items r hitems hr => ?_
    exact .some (List.forall_mem_cons.mpr ⟨hitem, hitems⟩) hr
  · refine .some (List.forall_mem_nil _) ?_
    split <;> exact sound
  · split
    · exact .none
    · exact .some (List.forall_mem_nil _) sound

theorem gives_members (sound : r.Sound) :
    Gives (∀ m ∈ ·, MemberWellFormed m) (members? handles (fuel + 1) r) := by
  rw [members?]
  split
  · refine (ih.nodeOrNull _ _ r.next sound).bind fun key r hkey hr => ?_
    have hrest (value : Yaml) (r : Reading) (hvalue : value.WellFormed) (hr : r.Sound) :
        Gives (∀ m ∈ ·, MemberWellFormed m)
          ((members? handles fuel r).bind fun x => some ((key, value) :: x.1, x.2)) :=
      (ih.members r hr).bind fun _ _ hmembers hr =>
        .some (List.forall_mem_cons.mpr ⟨⟨hkey, hvalue⟩, hmembers⟩) hr
    dsimp only
    split
    · exact (ih.nodeOrNull _ _ r.next hr).bind hrest
    · exact hrest null r .null hr
  · exact .some (List.forall_mem_nil _) sound
  · exact .none

theorem gives_flowPair (close : Token) (sound : r.Sound) :
    Gives MemberWellFormed (flowPair? handles (fuel + 1) close r) := by
  rw [flowPair?]
  refine (ih.nodeOrNull _ _ r sound).bind fun key r hkey hr => ?_
  have hrest (value : Yaml) (r : Reading) (hvalue : value.WellFormed) (hr : r.Sound) :
      Gives MemberWellFormed (some ((key, value), r)) :=
    .some ⟨hkey, hvalue⟩ hr
  dsimp only
  split
  · exact (ih.nodeOrNull _ _ r.next hr).bind hrest
  · exact hrest null r .null hr

theorem gives_flowItems (first : Bool) (sound : r.Sound) :
    Gives (∀ a ∈ ·, WellFormed a) (flowItems? handles (fuel + 1) first r) := by
  have hrest (item : Yaml) (r : Reading) (hitem : item.WellFormed) (hr : r.Sound) :
      Gives (∀ a ∈ ·, WellFormed a)
        ((flowItems? handles fuel false r).bind fun x => some (item :: x.1, x.2)) :=
    (ih.flowItems false r hr).bind fun _ _ hitems hr =>
      .some (List.forall_mem_cons.mpr ⟨hitem, hitems⟩) hr
  rw [flowItems?]
  split
  · exact .some (List.forall_mem_nil _) sound
  dsimp only
  split
  on_goal 2 => split
  on_goal 3 => exact .none
  -- the same after a comma as at the beginning
  all_goals
    rw [Option.bind_eq_bind, Option.bind_some]
    split
    · exact .some (List.forall_mem_nil _) sound
    split
    · refine ((ih.flowPair _ _ ?_).map fun _ => wellFormed_pair).bind fun item r h hr => ?_
      · exact sound
      · exact hrest item r h hr
    · refine (ih.node _ _ ?_).bind fun item r h hr => ?_
      · exact sound
      · exact hrest item r h hr

theorem gives_flowMembers (first : Bool) (sound : r.Sound) :
    Gives (∀ m ∈ ·, MemberWellFormed m) (flowMembers? handles (fuel + 1) first r) := by
  have hrest (pair : Yaml × Yaml) (r : Reading) (hpair : MemberWellFormed pair) (hr : r.Sound) :
      Gives (∀ m ∈ ·, MemberWellFormed m)
        ((flowMembers? handles fuel false r).bind fun x => some (pair :: x.1, x.2)) :=
    (ih.flowMembers false r hr).bind fun _ _ hmembers hr =>
      .some (List.forall_mem_cons.mpr ⟨hpair, hmembers⟩) hr
  rw [flowMembers?]
  split
  · exact .some (List.forall_mem_nil _) sound
  dsimp only
  split
  on_goal 2 => split
  on_goal 3 => exact .none
  all_goals
    rw [Option.bind_eq_bind, Option.bind_some]
    split
    · exact .some (List.forall_mem_nil _) sound
    split
    · refine (ih.flowPair _ _ ?_).bind fun pair r h hr => ?_
      · exact sound
      · exact hrest pair r h hr
    · refine (ih.node _ _ ?_).alone.bind fun pair r h hr => ?_
      · exact sound
      · exact hrest pair r h hr

end

theorem givesWellFormed (handles : Handles) (fuel : Nat) : GivesWellFormed handles fuel := by
  induction fuel with
  | zero => constructor <;> intros <;> exact .none
  | succ fuel ih =>
    exact ⟨fun place _ => gives_node ih place, fun place p _ => gives_content ih place p,
      fun place ends _ => gives_nodeOrNull ih place ends, fun closed _ => gives_entries ih closed,
      fun _ => gives_members ih, fun close _ => gives_flowPair ih close,
      fun first _ => gives_flowItems ih first, fun first _ => gives_flowMembers ih first⟩

theorem wellFormed_of_document? {ts rest : List Token} (h : document? ts = some (v, rest)) :
    v.WellFormed := by
  unfold document? at h
  split at h
  · cases h
    exact .null
  · obtain ⟨⟨own, _⟩, -, h⟩ := Option.bind_eq_some_iff.mp h
    have hcontent (ts' : List Token) (h : (if isBare ts' && ts'.length < ts.length
        then some (null, ts')
        else (node? (own ++ standardHandles) (4 * ts'.length + 4) .block { tokens := ts' }).bind
          fun x => some (x.1, x.2.tokens)) = some (v, rest)) : v.WellFormed := by
      split at h
      · cases h
        exact .null
      · obtain ⟨⟨w, r⟩, hnode, h⟩ := Option.bind_eq_some_iff.mp h
        cases h
        have hsound : Reading.Sound { tokens := ts' } := by simp [Reading.Sound]
        exact ((givesWellFormed _ _).node _ _ hsound _ r hnode).1
    dsimp only at h
    split at h
    · exact hcontent _ h
    · split at h
      · exact hcontent _ h
      · cases h

/-- No mapping in the tree of a text repeats a key. -/
theorem wellFormed_of_parse? {content : String} (h : parse? content = some v) : v.WellFormed := by
  obtain ⟨ts, -, h⟩ := Option.bind_eq_some_iff.mp h
  obtain ⟨⟨w, rest⟩, hdocument, h⟩ := Option.bind_eq_some_iff.mp h
  dsimp only at h
  split at h
  · cases h
    exact wellFormed_of_document? hdocument
  · cases h

end GribCatalog.Yaml
