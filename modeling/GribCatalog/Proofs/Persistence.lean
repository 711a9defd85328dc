import GribCatalog.Proofs.Calendar
import GribCatalog.Proofs.Invariant
import GribCatalog.Proofs.JsonText

/-! Spaces that are written and read. The text of a space is always JSON, but JSON has no
numeral for an infinite level and the calendar no second after any but the last of a
minute: the space comes back exactly when its axes hold neither. -/

namespace GribCatalog

namespace Json

/-! ### Typed values -/

variable {α : Type}

theorem readable_ofNat (n : Nat) : Readable (ofNat n) := by
  refine .number ?_
  rw [String.toList_ofList]
  exact isNumeral_digits (.inl rfl) n

theorem readable_ofInt (n : Int) : Readable (ofInt n) := by
  refine .number ?_
  rw [String.toList_ofList]
  exact isNumeral_integerDigits n

theorem readable_ofBinary64 (x : Binary64) : Readable (ofBinary64 x) := by
  rw [ofBinary64]
  split
  · next h =>
    refine .number ?_
    rw [String.toList_ofList]
    exact isNumeral_text (.inr rfl) h
  · exact .null

theorem natural?_ofNat {n limit : Nat} : (ofNat n).natural? limit = some n ↔ n < limit := by
  rw [ofNat, natural?, String.toList_ofList, Text.natural?_digits]
  simp

theorem int64?_ofInt (n : Int64) : (ofInt n.toInt).int64? = some n := by
  have hread := Text.int64?_integerDigits n
  rw [ofInt, int64?, String.toList_ofList]
  rw [Text.integerDigits] at hread ⊢
  split at hread
  · next h =>
    have hne : ¬ Text.natural? (Text.digits n.toInt.natAbs) = some 0 := by
      rw [Text.natural?_digits, Option.some.injEq]
      omega
    simp only [if_pos h, if_neg hne, hread]
  · next h =>
    obtain ⟨d, ds, hds, hd⟩ := Text.head_digits n.toInt.natAbs
    rw [if_neg h]
    rw [hds] at hread ⊢
    split
    · next heq =>
      obtain ⟨rfl, -⟩ := List.cons.inj heq
      cases hd
    · exact hread

theorem field?_named {members : List (String × Json)} (h : (members.map Prod.fst).Nodup)
    {name : String} {value : Json} (hmem : (name, value) ∈ members) :
    field? name (named members) = some (some value) := by
  obtain ⟨before, after, rfl⟩ := List.append_of_mem hmem
  simp only [List.map_append, List.map_cons, List.nodup_middle, List.nodup_cons,
    List.mem_append, not_or] at h
  have hother {members : List (String × Json)} (h : name ∉ members.map Prod.fst) :
      (named members).filter (fun m => m.1 = some name) = [] := by
    refine List.filter_eq_nil_iff.mpr fun m hm => ?_
    obtain ⟨member, hmember, rfl⟩ := List.mem_map.mp hm
    simp only [Option.some.injEq, decide_eq_true_eq]
    rintro rfl
    exact h (List.mem_map_of_mem hmember)
  have hfilter : (named (before ++ (name, value) :: after)).filter (fun m => m.1 = some name) =
      [(some name, value)] := by
    rw [named, List.map_append, List.map_cons, List.filter_append,
      List.filter_cons_of_pos (by simp), ← named, ← named, hother h.1.1, hother h.1.2,
      List.nil_append]
  rw [field?, hfilter]

theorem fields?_ofMembers {members : List (String × Json)} {names : List String}
    (hnames : members.map Prod.fst = names) (h : names.Nodup) :
    (ofMembers members).fields? names = some (members.map fun member => some member.2) := by
  subst hnames
  have hany : (named members).any (fun m => m.1.isNone) = false := by simp [named]
  rw [ofMembers, fields?, ← named, hany, if_neg Bool.false_ne_true, List.mapM_map]
  refine Option.mapM_eq_some_of_forall₂ ?_
  exact List.forall₂_map_right_iff.mpr (List.forall₂_same.mpr fun m hm => field?_named h hm)

structure Codec {α : Type} (encode : α → Json) (decode : Json → Option α) (Fits : α → Prop) :
    Prop where
  readable : ∀ a, Readable (encode a)
  decode_encode : ∀ a, Fits a → decode (encode a) = some a
  fits : ∀ j a, decode j = some a → Fits a

theorem codec_nat (limit : Nat) : Codec ofNat (natural? limit) (· < limit) where
  readable := readable_ofNat
  decode_encode _ := natural?_ofNat.mpr
  fits j n h := by
    cases j with
    | number numeral =>
      obtain ⟨-, hlt⟩ := Option.filter_eq_some_iff.mp h
      exact of_decide_eq_true hlt
    | _ => cases h

/-- A number that is not finite is written as null. -/
theorem codec_binary64 : Codec ofBinary64 binary64? (·.isFinite = true) where
  readable := readable_ofBinary64
  decode_encode x h := by
    have hnumber : x.isNaN = false := by
      rw [Binary64.isFinite, decide_eq_true_iff] at h
      rw [Binary64.isNaN, decide_eq_false_iff_not]
      omega
    rw [ofBinary64, if_pos h, binary64?, String.toList_ofList,
      Binary64.read?_text (.inr rfl) hnumber, Option.filter_some_pos h]
  fits j x h := by
    cases j with
    | number numeral => exact (Option.filter_eq_some_iff.mp h).2
    | _ => cases h

theorem codec_string : Codec ofString string? fun _ => True where
  readable := .string
  decode_encode _ _ := rfl
  fits _ _ _ := trivial

theorem Codec.list {encode : α → Json} {decode : Json → Option α} {Fits : α → Prop}
    (h : Codec encode decode Fits) :
    Codec (fun as => array (as.map encode)) (list? decode) fun as => ∀ a ∈ as, Fits a where
  readable as := by
    refine .array fun item hitem => ?_
    obtain ⟨a, -, rfl⟩ := List.mem_map.mp hitem
    exact h.readable a
  decode_encode as has := by
    rw [list?, elements?, Option.bind_some]
    refine Option.mapM_eq_some_of_forall₂ (List.forall₂_map_left_iff.mpr ?_)
    exact List.forall₂_same.mpr fun a ha => h.decode_encode a (has a ha)
  fits j as hread := by
    obtain ⟨items, -, hitems⟩ := Option.bind_eq_some_iff.mp hread
    have hall := (Option.forall₂_of_mapM_eq_some hitems).flip
    have hfits := hall.imp (S := fun a _ => Fits a ∧ True)
      fun a item hitem => ⟨h.fits item a hitem, trivial⟩
    exact ((List.forall₂_and_left _ _).mp hfits).1

end Json

open Json (Codec Readable)

theorem Period.codec : Codec Period.toJson Period.ofJson? fun _ => True where
  readable p := .object (List.forall_mem_cons.mpr ⟨Json.readable_ofInt _,
    List.forall_mem_cons.mpr ⟨Json.readable_ofInt _, nofun⟩⟩)
  decode_encode p _ := by
    rw [Period.ofJson?, Period.toJson, Json.fields?_ofMembers]
    · simp only [List.map_cons, List.map_nil, Json.int64?_ofInt]
      rfl
    · rfl
    · decide
  fits _ _ _ := trivial

theorem Instant.codec : Codec Instant.toJson Instant.ofJson? Instant.IsCivil where
  readable _ := .string _
  decode_encode t h := by
    rw [Instant.ofJson?, Instant.toJson, Json.ofString, Json.string?, Option.bind_some,
      String.toList_ofList, h.ofLenient?_zuluText]
  fits j t h := by
    obtain ⟨s, -, hs⟩ := Option.bind_eq_some_iff.mp h
    exact .of_ofLenient? hs

theorem Level.value_of_mk? {kind : UInt8} {value : Binary64} {l : Level}
    (h : Level.mk? kind value = some l) : l.value = value.unsignedZero := by
  unfold Level.mk? at h
  split at h
  · cases h
    rfl
  · cases h

theorem Binary64.isFinite_unsignedZero {x : Binary64} (h : x.isFinite = true) :
    x.unsignedZero.isFinite = true := by
  unfold unsignedZero
  split
  · decide
  · exact h

theorem Level.codec : Codec Level.toJson Level.ofJson? (·.value.isFinite = true) where
  readable l := .object (List.forall_mem_cons.mpr ⟨Json.readable_ofNat _,
    List.forall_mem_cons.mpr ⟨Json.readable_ofBinary64 _, nofun⟩⟩)
  decode_encode l h := by
    rw [Level.ofJson?, Level.toJson, Json.fields?_ofMembers]
    · simp only [List.map_cons, List.map_nil, Json.natural?_ofNat.mpr l.kind.toNat_lt,
        Json.codec_binary64.decode_encode _ h, Option.bind_eq_bind, Option.bind_some,
        UInt8.ofNat_toNat]
      exact l.mk?_value
    · rfl
    · decide
  fits j l h := by
    unfold Level.ofJson? at h
    split at h
    · simp only [Option.bind_eq_bind, Option.bind_eq_some_iff] at h
      obtain ⟨kind, -, value, hvalue, hl⟩ := h
      rw [Level.value_of_mk? hl]
      exact Binary64.isFinite_unsignedZero (Json.codec_binary64.fits _ _ hvalue)
    · cases h

theorem Member.codec : Codec Member.toJson Member.ofJson? fun _ => True where
  readable m := .object (List.forall_mem_cons.mpr ⟨Json.readable_ofNat _,
    List.forall_mem_cons.mpr ⟨Json.readable_ofNat _, nofun⟩⟩)
  decode_encode m _ := by
    rw [Member.ofJson?, Member.toJson, Json.fields?_ofMembers]
    · simp only [List.map_cons, List.map_nil, Json.natural?_ofNat.mpr m.kind.toNat_lt,
        Json.natural?_ofNat.mpr m.number.toNat_lt, Option.bind_eq_bind, Option.bind_some,
        UInt8.ofNat_toNat, UInt16.ofNat_toNat]
    · rfl
    · decide
  fits _ _ _ := trivial

/-- Values with a written form: finite levels, and instants that a clock can show. -/
def AxisValue.IsWritable : AxisValue → Prop
  | level l => l.value.isFinite = true
  | runtime t => t.IsCivil
  | _ => True

namespace AxisValue

theorem readable_contentToJson (v : AxisValue) : Readable v.contentToJson := by
  cases v with
  | offset n => exact Json.readable_ofInt n.toInt
  | period p => exact Period.codec.readable p
  | runtime t => exact Instant.codec.readable t
  | level l => exact Level.codec.readable l
  | member m => exact Member.codec.readable m
  | integer n => exact Json.readable_ofInt n.toInt
  | text s => exact .string s

theorem ofContent?_contentToJson {v : AxisValue} (h : v.IsWritable) :
    ofContent? v.tag v.contentToJson = some v := by
  cases v with
  | offset n => simp [ofContent?, tag, contentToJson, Json.int64?_ofInt]
  | period p => simp [ofContent?, tag, contentToJson, Period.codec.decode_encode p trivial]
  | runtime t => simp [ofContent?, tag, contentToJson, Instant.codec.decode_encode t h]
  | level l => simp [ofContent?, tag, contentToJson, Level.codec.decode_encode l h]
  | member m => simp [ofContent?, tag, contentToJson, Member.codec.decode_encode m trivial]
  | integer n => simp [ofContent?, tag, contentToJson, Json.int64?_ofInt]
  | text s => simp [ofContent?, tag, contentToJson, Json.ofString, Json.string?]

theorem isWritable_of_ofContent? {tag : String} {content : Json} {v : AxisValue}
    (h : ofContent? tag content = some v) : v.IsWritable := by
  unfold ofContent? at h
  split at h
  case h_3 =>
    obtain ⟨t, ht, rfl⟩ := Option.map_eq_some_iff.mp h
    exact Instant.codec.fits content t ht
  case h_4 =>
    obtain ⟨l, hl, rfl⟩ := Option.map_eq_some_iff.mp h
    exact Level.codec.fits content l hl
  case h_8 => cases h
  all_goals
    obtain ⟨_, -, rfl⟩ := Option.map_eq_some_iff.mp h
    trivial

/-- At every level: what is written has the tag first, so that nothing is kept. -/
theorem codec (level : Nat) : Codec toJson (ofJsonAt? level) IsWritable where
  readable v := .object (List.forall_mem_cons.mpr ⟨.string v.tag,
    List.forall_mem_cons.mpr ⟨v.readable_contentToJson, nofun⟩⟩)
  decode_encode v h := by
    have htag : tagFirst v.toJson = true := by simp [tagFirst, toJson, Json.ofMembers]
    rw [ofJsonAt?, htag, toJson, Json.fields?_ofMembers]
    · simp only [List.map_cons, List.map_nil, Bool.true_or, if_true]
      exact ofContent?_contentToJson h
    · rfl
    · decide
  fits j v h := by
    unfold ofJsonAt? at h
    split at h
    · split at h
      · obtain ⟨tag, -, htag⟩ := Option.bind_eq_some_iff.mp h
        exact isWritable_of_ofContent? htag
      · cases h
    · cases h

end AxisValue

theorem AxisKind.codec : Codec AxisKind.toJson AxisKind.ofJson? fun _ => True where
  readable k := by
    cases k with
    | custom name => exact .object (List.forall_mem_cons.mpr ⟨.string name, nofun⟩)
    | _ => exact .string _
  decode_encode k _ := by
    cases k <;>
      simp [AxisKind.ofJson?, AxisKind.toJson, Json.choice?, Json.unitChoice?, Json.ofString,
        Json.ofMembers, Json.string?, AxisKind.text, AxisKind.ofName?]
  fits _ _ _ := trivial

theorem DuplicatePolicy.codec :
    Codec DuplicatePolicy.toJson DuplicatePolicy.ofJson? fun _ => True where
  readable p := .string p.name
  decode_encode p _ := by
    cases p <;>
      simp [DuplicatePolicy.ofJson?, DuplicatePolicy.toJson, Json.choice?, Json.unitChoice?,
        Json.ofString, DuplicatePolicy.name, DuplicatePolicy.ofName?]
  fits _ _ _ := trivial

def Axis.IsWritable (a : Axis) : Prop :=
  ∀ v ∈ a.values, v.IsWritable

theorem Axis.codec (level : Nat) : Codec Axis.toJson (Axis.ofJsonAt? level) Axis.IsWritable where
  readable a := .object (List.forall_mem_cons.mpr ⟨.string a.name,
    List.forall_mem_cons.mpr ⟨AxisKind.codec.readable a.kind,
      List.forall_mem_cons.mpr ⟨(AxisValue.codec (level + 2)).list.readable a.values, nofun⟩⟩⟩)
  decode_encode a h := by
    rw [Axis.ofJsonAt?, Axis.toJson, Json.fields?_ofMembers]
    · simp only [List.map_cons, List.map_nil, Json.codec_string.decode_encode _ trivial,
        AxisKind.codec.decode_encode _ trivial,
        (AxisValue.codec (level + 2)).list.decode_encode _ h]
      rfl
    · rfl
    · decide
  fits j a h := by
    unfold Axis.ofJsonAt? at h
    split at h
    · simp only [Option.bind_eq_bind, Option.bind_eq_some_iff, Option.some.injEq] at h
      obtain ⟨name, -, kind, -, values, hvalues, rfl⟩ := h
      exact (AxisValue.codec (level + 2)).list.fits _ values hvalues
    · cases h

structure Location.FitsWords (l : Location) : Prop where
  offset : l.offset < wordLimit
  length : l.length < wordLimit

theorem Location.codec : Codec Location.toJson Location.ofJson? Location.FitsWords where
  readable l := .object (List.forall_mem_cons.mpr ⟨Json.readable_ofNat _,
    List.forall_mem_cons.mpr ⟨Json.readable_ofNat _,
      List.forall_mem_cons.mpr ⟨Json.readable_ofNat _,
        List.forall_mem_cons.mpr ⟨Json.readable_ofNat _, nofun⟩⟩⟩⟩)
  decode_encode l h := by
    rw [Location.ofJson?, Location.toJson, Json.fields?_ofMembers]
    · simp only [List.map_cons, List.map_nil, Json.orDefault, Json.natural?_ofNat.mpr h.offset,
        Json.natural?_ofNat.mpr h.length, Json.natural?_ofNat.mpr l.file.toNat_lt,
        Json.natural?_ofNat.mpr l.field.toNat_lt, Option.bind_eq_bind, Option.bind_some,
        UInt32.ofNat_toNat, UInt16.ofNat_toNat]
    · rfl
    · decide
  fits j l h := by
    unfold Location.ofJson? at h
    split at h
    · simp only [Option.bind_eq_bind, Option.bind_eq_some_iff, Option.some.injEq] at h
      obtain ⟨file, -, offset, hoffset, length, hlength, field, -, rfl⟩ := h
      exact ⟨(Json.codec_nat wordLimit).fits _ offset hoffset,
        (Json.codec_nat wordLimit).fits _ length hlength⟩
    · cases h

structure Entry.FitsWords (e : Entry) : Prop where
  position : e.position < wordLimit
  location : e.location.FitsWords
  indices : ∀ i ∈ e.indices, i < wordLimit

theorem Entry.codec : Codec Entry.toJson Entry.ofJson? Entry.FitsWords where
  readable e := .object (List.forall_mem_cons.mpr ⟨Json.readable_ofNat _,
    List.forall_mem_cons.mpr ⟨Location.codec.readable e.location,
      List.forall_mem_cons.mpr ⟨(Json.codec_nat wordLimit).list.readable e.indices, nofun⟩⟩⟩)
  decode_encode e h := by
    rw [Entry.ofJson?, Entry.toJson, Json.fields?_ofMembers]
    · simp only [List.map_cons, List.map_nil, Json.natural?_ofNat.mpr h.position,
        Location.codec.decode_encode _ h.location,
        (Json.codec_nat wordLimit).list.decode_encode _ h.indices]
      rfl
    · rfl
    · decide
  fits j e h := by
    unfold Entry.ofJson? at h
    split at h
    · simp only [Option.bind_eq_bind, Option.bind_eq_some_iff, Option.some.injEq] at h
      obtain ⟨position, hposition, location, hlocation, indices, hindices, rfl⟩ := h
      exact ⟨(Json.codec_nat wordLimit).fits _ position hposition,
        Location.codec.fits _ location hlocation,
        (Json.codec_nat wordLimit).list.fits _ indices hindices⟩
    · cases h

structure Snapshot.IsWritable (s : Snapshot) : Prop where
  version : s.version < Nat.pow 2 32
  axes : ∀ a ∈ s.axes, a.IsWritable
  entries : ∀ e ∈ s.entries, e.FitsWords
  nextPosition : s.nextPosition < wordLimit

theorem Snapshot.codec (level : Nat) :
    Codec Snapshot.toJson (Snapshot.ofJsonAt? level) Snapshot.IsWritable where
  readable s := .object (List.forall_mem_cons.mpr ⟨Json.readable_ofNat _,
    List.forall_mem_cons.mpr ⟨DuplicatePolicy.codec.readable s.policy,
      List.forall_mem_cons.mpr ⟨(Axis.codec (level + 2)).list.readable s.axes,
        List.forall_mem_cons.mpr ⟨Entry.codec.list.readable s.entries,
          List.forall_mem_cons.mpr ⟨Json.readable_ofNat _, nofun⟩⟩⟩⟩⟩)
  decode_encode s h := by
    simp only [Snapshot.ofJsonAt?]
    rw [Snapshot.toJson, Json.fields?_ofMembers]
    · simp only [List.map_cons, List.map_nil, Json.orDefault, Json.natural?_ofNat.mpr h.version,
        DuplicatePolicy.codec.decode_encode _ trivial,
        (Axis.codec (level + 2)).list.decode_encode _ h.axes,
        Entry.codec.list.decode_encode _ h.entries, Json.natural?_ofNat.mpr h.nextPosition]
      rfl
    · rfl
    · decide
  fits j s h := by
    simp only [Snapshot.ofJsonAt?] at h
    split at h
    · simp only [Option.bind_eq_bind, Option.bind_eq_some_iff, Option.some.injEq] at h
      obtain ⟨version, hversion, policy, -, axes, haxes, entries, hentries, next, hnext, rfl⟩ := h
      refine ⟨(Json.codec_nat _).fits _ version hversion,
        (Axis.codec (level + 2)).list.fits _ axes haxes,
        Entry.codec.list.fits _ entries hentries, ?_⟩
      unfold Json.orDefault at hnext
      split at hnext
      · cases hnext
        exact show 0 < wordLimit by decide
      · exact (Json.codec_nat _).fits _ next hnext
    · cases h

namespace Space

structure FitsWords (s : Space) : Prop where
  entries : ∀ e ∈ s.entries, e.FitsWords
  consumed : s.consumed < wordLimit

theorem nextPosition_lt_iff {s : Space} : s.nextPosition < wordLimit ↔ s.consumed < wordLimit := by
  rw [nextPosition, foldl_max_lt_iff, and_iff_left_iff_imp]
  intro _ n hn
  obtain ⟨e, -, rfl⟩ := List.mem_map.mp hn
  exact positionAfter_lt e.position 1

theorem isWritable_snapshot_iff {s : Space} :
    s.snapshot.IsWritable ↔ s.FitsWords ∧ ∀ a ∈ s.axes, a.IsWritable := by
  constructor
  · intro h
    exact ⟨⟨h.entries, nextPosition_lt_iff.mp h.nextPosition⟩, h.axes⟩
  · rintro ⟨hfits, haxes⟩
    exact ⟨show 1 < Nat.pow 2 32 by decide, haxes, hfits.entries,
      nextPosition_lt_iff.mpr hfits.consumed⟩

/-- The text of a space is JSON, whatever the space holds. -/
theorem parse?_text (s : Space) : Json.parse? s.text = some s.snapshot.toJson :=
  ((Snapshot.codec 1).readable s.snapshot).parse?_pretty

theorem ofText_text (s : Space) :
    ofText s.text = match Snapshot.ofJsonAt? 1 s.snapshot.toJson with
      | some snapshot => restore snapshot
      | none => .error .unreadable := by
  rw [ofText, parse?_text]
  rfl

theorem snapshot_of_restore {snapshot : Snapshot} {s : Space} (h : restore snapshot = .ok s) :
    s.axes = snapshot.axes ∧ s.entries = snapshot.entries ∧ s.consumed = snapshot.nextPosition := by
  obtain ⟨-, rfl⟩ := restore_eq_ok_iff.mp h
  exact ⟨rfl, rfl, rfl⟩

/-- A space comes back from its text, with the same snapshot, exactly when its axes hold no
infinite level and no instant that a clock cannot show. -/
theorem restores_text_iff {s : Space} (h : s.Reachable) :
    (∃ t, ofText s.text = .ok t ∧ t.snapshot = s.snapshot) ↔
      s.FitsWords ∧ ∀ a ∈ s.axes, a.IsWritable := by
  rw [ofText_text, ← isWritable_snapshot_iff]
  constructor
  · rintro ⟨t, ht, hsnapshot⟩
    split at ht
    · next snapshot hread =>
      have hfits := (Snapshot.codec 1).fits _ _ hread
      obtain ⟨haxes, hentries, hconsumed⟩ := snapshot_of_restore ht
      rw [← hsnapshot, isWritable_snapshot_iff, haxes]
      refine ⟨⟨?_, ?_⟩, hfits.axes⟩
      · rw [hentries]
        exact hfits.entries
      · rw [hconsumed]
        exact hfits.nextPosition
    · cases ht
  · intro hwritable
    rw [(Snapshot.codec 1).decode_encode _ hwritable]
    refine ⟨_, h.sound.restore_snapshot, ?_⟩
    simp only [snapshot, nextPosition_consumed]

/-- The level of 500 hPa, and the start of 1970. -/
theorem restores_text_of_pressure_level :
    let level : AxisValue := .level ⟨100, ⟨0x407F400000000000⟩, by decide, by decide⟩
    let dimensions : List (Dimension Field) :=
      [⟨"vertical", .vertical, fun _ => .ok level, AxisValue.order⟩,
        FieldDimension.runtime.dimension]
    let records : List Field :=
      [⟨1, 0, 28, 0, 98, ⟨0, 0⟩, 0, ⟨0, 0, 0⟩, .instant 0, none, none⟩]
    ∃ s report, build dimensions records {} = .ok (s, report) ∧ s.Reachable ∧
      s.axes.map Axis.values = [[level], [.runtime ⟨0, 0⟩]] ∧
      ∃ t, ofText s.text = .ok t ∧ t.snapshot = s.snapshot := by
  intro level dimensions records
  have found : (build dimensions records {}).toOption.map
      (fun result => (result.1.axes.map Axis.values, result.1.entries, result.1.consumed)) =
        some ([[level], [.runtime ⟨0, 0⟩]], [⟨0, ⟨1, 0, 28, 0⟩, [0, 0]⟩], 1) := by decide +kernel
  cases built : build dimensions records {} with
  | error e =>
    rw [built] at found
    cases found
  | ok result =>
    obtain ⟨s, report⟩ := result
    rw [built] at found
    obtain ⟨axes, found⟩ := Prod.mk.inj (Option.some.inj found)
    obtain ⟨entries, consumed⟩ := Prod.mk.inj found
    have reachable : s.Reachable := .build built
    refine ⟨s, report, rfl, reachable, axes, (restores_text_iff reachable).mpr ⟨⟨?_, ?_⟩, ?_⟩⟩
    · rw [entries, List.forall_mem_singleton]
      exact ⟨by decide, ⟨by decide, by decide⟩, by decide⟩
    · rw [consumed]
      decide
    · intro a ha v hv
      have hvalues := axes ▸ List.mem_map_of_mem ha
      rcases List.mem_cons.mp hvalues with hvalues | hvalues
      · rw [hvalues, List.mem_singleton] at hv
        rw [hv]
        exact show (Binary64.mk 0x407F400000000000).isFinite = true by decide
      · rw [List.mem_singleton.mp hvalues, List.mem_singleton] at hv
        rw [hv]
        exact ⟨by decide, .inl (by decide)⟩

/-- An infinite level is a level, and null is no number. -/
theorem unreadable_infinite_level :
    let dimensions : List (Dimension Field) :=
      [⟨"vertical", .vertical, fun _ =>
        match AxisValue.ofSurface? 100 .infinity with
        | some level => .ok level
        | none => .error (.missing "level"), AxisValue.order⟩]
    let records : List Field :=
      [⟨1, 0, 28, 0, 98, ⟨0, 0⟩, 0, ⟨0, 0, 0⟩, .instant 0, none, none⟩]
    ∃ s report, build dimensions records {} = .ok (s, report) ∧ s.Reachable ∧
      report.indexed = 1 ∧ ofText s.text = .error .unreadable := by
  intro dimensions records
  have found : (build dimensions records {}).toOption.map
      (fun result => (result.2.indexed, (Snapshot.ofJsonAt? 1 result.1.snapshot.toJson))) =
        some (1, none) := by decide +kernel
  cases built : build dimensions records {} with
  | error e =>
    rw [built] at found
    cases found
  | ok result =>
    obtain ⟨s, report⟩ := result
    rw [built] at found
    obtain ⟨indexed, unread⟩ := Prod.mk.inj (Option.some.inj found)
    refine ⟨s, report, rfl, .build built, indexed, ?_⟩
    rw [ofText_text, show Snapshot.ofJsonAt? 1 s.snapshot.toJson = none from unread]

end Space

end GribCatalog
