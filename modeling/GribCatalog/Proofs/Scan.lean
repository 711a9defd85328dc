import GribCatalog.Grib.Scan
import GribCatalog.Proofs.Outcome

/-! Scanning is local. Where a stream stands in its file changes only the offsets
of its items, and a whole message is read the same whatever follows it, so that
scanning splits at the end of every whole message. -/

namespace GribCatalog

namespace Bytes

/-- A pattern stands at a place of a byte string and at none before it. -/
def FirstAt (pat bs : Bytes) (i : Nat) : Prop :=
  pat <+: bs.drop i ∧ ∀ j < i, ¬ pat <+: bs.drop j

theorem seek?_skipped (pat bs : Bytes) (n : Nat) :
    seek? pat n bs = (seek? pat 0 bs).map fun (k, rest) => (n + k, rest) := by
  induction bs generalizing n with
  | nil => rfl
  | cons b bs ih =>
    rw [seek?, seek?]
    split
    · rfl
    · rw [ih (n + 1), ih (0 + 1), Option.map_map]
      congr 1
      funext p
      simp [Nat.add_assoc]

theorem seek?_eq_some_iff {pat bs rest : Bytes} {i : Nat} (hp : pat ≠ []) :
    seek? pat 0 bs = some (i, rest) ↔ FirstAt pat bs i ∧ rest = bs.drop i := by
  induction bs generalizing i with
  | nil => simp [seek?, FirstAt, hp]
  | cons b bs ih =>
    rw [seek?]
    split
    · next hb =>
      rw [List.isPrefixOf_iff_prefix] at hb
      constructor
      · rintro ⟨⟩
        exact ⟨⟨hb, by simp⟩, rfl⟩
      · rintro ⟨⟨-, hfirst⟩, rfl⟩
        cases i with
        | zero => rfl
        | succ i => exact absurd hb (hfirst 0 (Nat.succ_pos i))
    · next hb =>
      rw [List.isPrefixOf_iff_prefix] at hb
      rw [seek?_skipped]
      simp only [Option.map_eq_some_iff, Prod.exists, Prod.mk.injEq]
      constructor
      · rintro ⟨k, r, hk, rfl, rfl⟩
        obtain ⟨⟨hpat, hfirst⟩, rfl⟩ := ih.mp hk
        refine ⟨⟨by simpa [Nat.add_comm] using hpat, ?_⟩, by simp [Nat.add_comm]⟩
        intro j hj
        cases j with
        | zero => exact hb
        | succ j => simpa using hfirst j (by omega)
      · rintro ⟨⟨hpat, hfirst⟩, rfl⟩
        cases i with
        | zero => exact absurd hpat hb
        | succ i =>
          refine ⟨i, bs.drop i, ih.mpr ⟨⟨by simpa using hpat, ?_⟩, rfl⟩, by omega, by simp⟩
          intro j hj
          simpa using hfirst (j + 1) (by omega)

/-- What follows a pattern that stands somewhere does not change where it stands first. -/
theorem FirstAt.append {pat bs : Bytes} {i : Nat} (h : FirstAt pat bs i) (rest : Bytes) :
    FirstAt pat (bs ++ rest) i := by
  have hlen := h.1.length_le
  simp only [List.length_drop] at hlen
  have drop (j : Nat) (hj : j ≤ i) (hi : pat ≠ []) :
      (bs ++ rest).drop j = bs.drop j ++ rest := by
    have := List.length_pos_iff.mpr hi
    exact List.drop_append_of_le_length (by omega)
  by_cases hp : pat = []
  · subst hp
    exact ⟨List.nil_prefix, fun j hj => absurd List.nil_prefix (h.2 j hj)⟩
  · refine ⟨drop i (Nat.le_refl i) hp ▸ h.1.trans (List.prefix_append _ _), ?_⟩
    intro j hj hpre
    rw [drop j (by omega) hp] at hpre
    refine h.2 j hj (List.prefix_of_prefix_length_le hpre (List.prefix_append _ _) ?_)
    simp only [List.length_drop]
    omega

end Bytes

/-! ### Moving a stream -/

namespace ScanFault

def shift (k : Nat) : ScanFault → ScanFault
  | frame offset fault => frame (k + offset) fault
  | edition number offset => edition number (k + offset)
  | truncated offset declared available => truncated (k + offset) declared available
  | fault => fault

/-- Whether a fault names a place in the file. -/
def isPlaced : ScanFault → Bool
  | frame .. => true
  | edition .. => true
  | truncated .. => true
  | _ => false

theorem shift_of_not_isPlaced {e : ScanFault} (h : e.isPlaced = false) (k : Nat) :
    e.shift k = e := by
  cases e <;> first | rfl | cases h

end ScanFault

/-- The field of a message that stands `k` bytes further on, in a file of another number. -/
def Field.moved (renumber : UInt32 → UInt32) (k : Nat) (f : Field) : Field :=
  { f with file := renumber f.file, offset := k + f.offset }

namespace ScanItem

def moved (renumber : UInt32 → UInt32) (k : Nat) : ScanItem → ScanItem
  | .ok f => .ok (f.moved renumber k)
  | .error e => .error (e.shift k)

def shift (k : Nat) : ScanItem → ScanItem :=
  moved id k

end ScanItem

theorem Section.isPlaced_of_chain {offset : Nat} {rest : Bytes} {e : ScanFault}
    (h : chain offset rest = .error e) : e.isPlaced = false := by
  fun_induction chain offset rest with
  | case1 => cases h
  | case2 => cases h; rfl
  | case3 => cases h; rfl
  | case4 _ _ _ _ _ _ _ ih => exact ih (Except.map_eq_error_iff.mp h)

theorem Section.isPlaced_of_withNumber {number : UInt8} {sections : List Section} {e : ScanFault}
    (h : withNumber number sections = .error e) : e.isPlaced = false := by
  unfold withNumber at h
  split at h <;> cases h
  rfl

theorem Identification.isPlaced_of_read {bs : Bytes} {e : ScanFault}
    (h : read bs = .error e) : e.isPlaced = false := by
  unfold read at h
  split at h
  · cases h; rfl
  · simp only at h
    split at h <;> cases h
    rfl

theorem TimeUnit.isPlaced_of_ofCode {code : UInt8} {e : ScanFault}
    (h : ofCode code = .error e) : e.isPlaced = false := by
  unfold ofCode at h
  split at h <;> cases h
  rfl

theorem Product.isPlaced_of_readForecast {template : Nat} {bs : Bytes} {e : ScanFault}
    (h : readForecast template bs = .error e) : e.isPlaced = false := by
  unfold readForecast at h
  split at h
  · next hd =>
    cases h
    exact TimeUnit.isPlaced_of_ofCode (Except.map_eq_error_iff.mp hd)
  · split at h
    · cases h
    · have hd := Except.map_eq_error_iff.mp h
      exact TimeUnit.isPlaced_of_ofCode (Except.map_eq_error_iff.mp hd)

theorem Product.isPlaced_of_read {bs : Bytes} {e : ScanFault}
    (h : read bs = .error e) : e.isPlaced = false := by
  unfold read at h
  split at h
  · cases h; rfl
  · simp only at h
    split at h
    · cases h; rfl
    · split at h
      · cases h; rfl
      · exact isPlaced_of_readForecast (Except.map_eq_error_iff.mp h)

section Moved

variable (renumber : UInt32 → UInt32) (k : Nat)

theorem Indicator.read_moved (offset : Nat) (bs : Bytes) :
    read (k + offset) bs = (read offset bs).mapError (ScanFault.shift k) := by
  unfold read
  repeat' split
  all_goals rfl

def Frame.shift : Frame → Frame
  | .broken fault => .broken (fault.shift k)
  | .otherEdition fault length => .otherEdition (fault.shift k) length
  | .message indicator => .message indicator

@[simp] theorem Frame.length_shift (frame : Frame) : (frame.shift k).length = frame.length := by
  cases frame <;> rfl

theorem Frame.ofBytes_moved (offset : Nat) (bs : Bytes) :
    ofBytes (k + offset) bs = (ofBytes offset bs).shift k := by
  unfold ofBytes
  rw [Indicator.read_moved]
  cases Indicator.read offset bs with
  | error e => rfl
  | ok indicator =>
    simp only [Except.mapError_ok]
    repeat' split
    all_goals rfl

theorem Message.field_moved (file : UInt32) (offset : Nat) (indicator : Indicator)
    (source : Identification) (index : Nat) (s : Section) :
    field (renumber file) (k + offset) indicator source index s =
      ScanItem.moved renumber k (field file offset indicator source index s) := by
  unfold field
  cases h : Product.read s.bytes with
  | ok product => rfl
  | error e =>
    simp only [Except.map, ScanItem.moved]
    rw [ScanFault.shift_of_not_isPlaced (Product.isPlaced_of_read h)]

theorem Message.fields_moved (file : UInt32) (offset : Nat) (indicator : Indicator)
    (message : Bytes) :
    fields (renumber file) (k + offset) indicator message =
      ((fields file offset indicator message).map (List.map (ScanItem.moved renumber k))).mapError
        (ScanFault.shift k) := by
  unfold fields
  split
  · rfl
  have same {e : ScanFault} (h : e.isPlaced = false) : e = e.shift k :=
    (ScanFault.shift_of_not_isPlaced h k).symm
  cases hs : Section.ofMessage message with
  | error e => exact congrArg _ (same (Section.isPlaced_of_chain hs))
  | ok sections =>
    cases hf : Section.withNumber 1 sections with
    | error e =>
      simp only [Bind.bind, Except.bind, hf]
      exact congrArg _ (same (Section.isPlaced_of_withNumber hf))
    | ok first =>
      cases hr : Identification.read first.bytes with
      | error e =>
        simp only [Bind.bind, Except.bind, hf, hr]
        exact congrArg _ (same (Identification.isPlaced_of_read hr))
      | ok source =>
        simp only [Bind.bind, Except.bind, hf, hr]
        split
        · rfl
        · simp only [Except.map, Except.mapError_ok]
          refine congrArg _ (List.mapIdx_eq_iff.mpr fun i => ?_)
          simp only [List.getElem?_map, List.getElem?_mapIdx, Option.map_map]
          congr 1
          funext s
          exact (field_moved renumber k file offset indicator source i s).symm

theorem Frame.items_moved (file : UInt32) (offset : Nat) (bs : Bytes) (frame : Frame) :
    (frame.shift k).items (renumber file) (k + offset) bs =
      (frame.items file offset bs).map (ScanItem.moved renumber k) := by
  cases frame with
  | broken fault => rfl
  | otherEdition fault length => rfl
  | message indicator =>
    simp only [shift, items, Message.fields_moved]
    cases Message.fields file offset indicator (bs.take indicator.length) <;> rfl

end Moved

theorem scanFrom_of_none {file : UInt32} {offset : Nat} {bs : Bytes}
    (h : Bytes.seek? Indicator.magic 0 bs = none) : scanFrom file offset bs = [] := by
  rw [scanFrom]
  split
  · rfl
  · next h' => rw [h] at h'; cases h'

theorem scanFrom_of_some {file : UInt32} {offset skipped : Nat} {bs rest : Bytes}
    (h : Bytes.seek? Indicator.magic 0 bs = some (skipped, rest)) :
    scanFrom file offset bs =
      let frame := Frame.ofBytes (offset + skipped) rest
      frame.items file (offset + skipped) rest ++
        scanFrom file (offset + skipped + frame.length) (rest.drop frame.length) := by
  rw [scanFrom]
  split
  · next h' => rw [h] at h'; cases h'
  · next h' =>
    rw [h] at h'
    cases h'
    rfl

/-- A stream that stands further on in its file, or in another file, has the same items there. -/
theorem scanFrom_moved (renumber : UInt32 → UInt32) (k : Nat) (file : UInt32) (offset : Nat)
    (bs : Bytes) :
    scanFrom (renumber file) (k + offset) bs =
      (scanFrom file offset bs).map (ScanItem.moved renumber k) := by
  -- every frame takes bytes off the stream, so its length carries the induction
  induction h : bs.length using Nat.strongRecOn generalizing bs offset with
  | _ n ih =>
    cases hs : Bytes.seek? Indicator.magic 0 bs with
    | none => rw [scanFrom_of_none hs, scanFrom_of_none hs]; rfl
    | some found =>
      obtain ⟨skipped, rest⟩ := found
      have hlen := Bytes.seek?_length hs
      have hpos := Frame.length_pos (offset + skipped) rest
      rw [scanFrom_of_some hs, scanFrom_of_some hs, Nat.add_assoc k]
      simp only [Frame.ofBytes_moved k (offset + skipped), Frame.items_moved, Frame.length_shift,
        List.map_append]
      rw [Nat.add_assoc k]
      refine congrArg _ (ih _ ?_ _ _ rfl)
      simp only [List.length_drop]
      omega

/-! ### Whole messages -/

namespace Bytes

theorem byteAt_append {bs : Bytes} {i : Nat} (h : i < bs.length) (rest : Bytes) :
    byteAt (bs ++ rest) i = bs.byteAt i := by
  simp only [byteAt, List.getD_eq_getElem?_getD, List.getElem?_append_left h]

theorem byteAt_drop (bs : Bytes) (k i : Nat) : byteAt (bs.drop k) i = bs.byteAt (k + i) := by
  simp only [byteAt, List.getD_eq_getElem?_getD, List.getElem?_drop]

theorem slice_drop (bs : Bytes) (k i len : Nat) :
    slice (bs.drop k) i len = bs.slice (k + i) len := by
  rw [slice, List.drop_drop, slice]

theorem wordAt_drop (bs : Bytes) (k i len : Nat) :
    wordAt (bs.drop k) i len = bs.wordAt (k + i) len := by
  rw [wordAt, slice_drop, wordAt]

theorem slice_append {bs : Bytes} {start len : Nat} (h : start + len ≤ bs.length) (rest : Bytes) :
    slice (bs ++ rest) start len = bs.slice start len := by
  unfold slice
  rw [List.drop_append_of_le_length (by omega), List.take_append_of_le_length]
  simp only [List.length_drop]
  omega

end Bytes

namespace Message

structure Whole (m : Bytes) : Prop where
  magic : Indicator.magic <+: m
  edition : m.byteAt 7 = 2
  length : m.wordAt 8 8 = m.length
  least : 20 ≤ m.length
  marker : Section.endMarker <:+ m

def indicator (m : Bytes) : Indicator :=
  ⟨m.byteAt 6, 2, m.length⟩

namespace Whole

variable {m : Bytes}

theorem read_indicator (h : Whole m) (offset : Nat) (rest : Bytes) :
    Indicator.read offset (m ++ rest) = .ok (indicator m) := by
  have hleast := h.least
  have hmagic : (m ++ rest).take 4 = Indicator.magic := by
    rw [List.take_append_of_le_length (by omega)]
    exact (List.prefix_iff_eq_take.mp h.magic).symm
  have hword : Bytes.wordAt (m ++ rest) 8 8 = m.length := by
    rw [← h.length, Bytes.wordAt, Bytes.wordAt, Bytes.slice_append (by omega)]
  simp only [Indicator.read, Section.indicatorLength, List.length_append, hmagic, hword,
    Bytes.byteAt_append (show 6 < m.length by omega),
    Bytes.byteAt_append (show 7 < m.length by omega), h.edition]
  rw [if_neg (by omega), if_neg (by simp), if_neg (by decide), if_pos trivial, if_neg (by omega)]
  rfl

theorem frame (h : Whole m) (offset : Nat) (rest : Bytes) :
    Frame.ofBytes offset (m ++ rest) = .message (indicator m) := by
  have hleast := h.least
  have hmarker : Bytes.slice (m ++ rest) (m.length - 4) 4 = Section.endMarker := by
    rw [Bytes.slice_append (by omega), Bytes.slice, List.take_of_length_le]
    · exact (List.suffix_iff_eq_drop.mp h.marker).symm
    · simp only [List.length_drop]
      omega
  simp only [Frame.ofBytes, h.read_indicator, indicator, Frame.leastLength, hmarker,
    List.length_append]
  rw [if_neg (by omega), if_neg (by omega), if_neg (by decide), if_neg (by simp)]

theorem items_append (file : UInt32) (offset : Nat) (m rest : Bytes) :
    (Frame.message (indicator m)).items file offset (m ++ rest) =
      (Frame.message (indicator m)).items file offset m := by
  simp only [Frame.items, indicator, List.take_left, List.take_length]

/-- A whole message in front of a stream yields its items, and the stream yields what it yields
there. -/
theorem scanFrom_append (h : Whole m) (file : UInt32) (offset : Nat) (rest : Bytes) :
    scanFrom file offset (m ++ rest) =
      (Frame.message (indicator m)).items file offset m ++
        scanFrom file (offset + m.length) rest := by
  have hseek : Bytes.seek? Indicator.magic 0 (m ++ rest) = some (0, m ++ rest) :=
    (Bytes.seek?_eq_some_iff (by decide)).mpr
      ⟨⟨h.magic.trans (List.prefix_append m rest), fun j hj => absurd hj (Nat.not_lt_zero j)⟩, rfl⟩
  rw [scanFrom_of_some hseek]
  simp only [Nat.add_zero, h.frame, items_append]
  rw [show (Frame.message (indicator m)).length = m.length from rfl, List.drop_left]

theorem scan_eq (h : Whole m) (file : UInt32) :
    scan file m = (Frame.message (indicator m)).items file 0 m := by
  have happend := h.scanFrom_append file 0 []
  have hnone : scanFrom file (0 + m.length) [] = [] := scanFrom_of_none rfl
  rw [List.append_nil, hnone, List.append_nil] at happend
  exact happend

end Whole

/-- A message of one field: the forecast for noon that was made on a day of June 2023. -/
def june (day : UInt8) : Bytes :=
  [0x47, 0x52, 0x49, 0x42, 0, 0, 0, 2, 0, 0, 0, 0, 0, 0, 0, 75,
    0, 0, 0, 21, 1, 0, 98, 0, 0, 2, 1, 1, 7, 231, 6, day, 0, 0, 0, 0, 1,
    0, 0, 0, 34, 4, 0, 0, 0, 0, 0, 5, 2, 0, 0, 0, 0, 0, 1, 0, 0, 0, 12,
    100, 0, 0, 0, 1, 244, 255, 0, 0, 0, 0, 0, 0x37, 0x37, 0x37, 0x37]

theorem whole_june (day : UInt8) : Whole (june day) where
  magic := ⟨(june day).drop 4, rfl⟩
  edition := rfl
  length := rfl
  least := by simp [june]
  marker := ⟨(june day).take 71, rfl⟩

end Message

/-- A whole message that is the first in a stream yields what it yields by itself, and the bytes
after it yield what they yield by themselves, whatever the message holds. -/
theorem scan_append {g m : Bytes} (whole : Message.Whole m)
    (first : Bytes.FirstAt Indicator.magic (g ++ m) g.length) (file : UInt32) (rest : Bytes) :
    scan file (g ++ m ++ rest) =
      (scan file m).map (ScanItem.shift g.length) ++
        (scan file rest).map (ScanItem.shift (g.length + m.length)) := by
  have hseek : Bytes.seek? Indicator.magic 0 (g ++ m ++ rest) = some (g.length, m ++ rest) := by
    refine (Bytes.seek?_eq_some_iff (by decide)).mpr ⟨first.append rest, ?_⟩
    rw [List.append_assoc, List.drop_left]
  have hmessage : (Frame.message (Message.indicator m)).items file g.length m =
      ((Frame.message (Message.indicator m)).items file 0 m).map (ScanItem.shift g.length) :=
    Frame.items_moved id g.length file 0 m (.message (Message.indicator m))
  have hrest : scanFrom file (g.length + m.length) rest =
      (scan file rest).map (ScanItem.shift (g.length + m.length)) :=
    scanFrom_moved id (g.length + m.length) file 0 rest
  rw [scan, scanFrom_of_some hseek]
  simp only [Nat.zero_add, whole.frame, Message.Whole.items_append, whole.scan_eq]
  rw [show (Frame.message (Message.indicator m)).length = m.length from rfl, List.drop_left,
    hmessage, hrest]

/-- A message with the magic and the end marker in its body, behind a broken magic and before
another. -/
theorem scan_append_nested :
    let g : Bytes := [0x47, 0x52, 0x49]
    let m : Bytes := [0x47, 0x52, 0x49, 0x42, 0, 0, 0, 2, 0, 0, 0, 0, 0, 0, 0, 28,
      0x47, 0x52, 0x49, 0x42, 0x37, 0x37, 0x37, 0x37, 0x37, 0x37, 0x37, 0x37]
    let rest : Bytes := [0x47, 0x52, 0x49, 0x42, 0, 0, 0, 3]
    (Message.Whole m ∧ Bytes.FirstAt Indicator.magic (g ++ m) g.length) ∧
      scan 0 (g ++ m ++ rest) = (scan 0 m).map (ScanItem.shift g.length) ++
        (scan 0 rest).map (ScanItem.shift (g.length + m.length)) := by
  intro g m rest
  have whole : Message.Whole m :=
    ⟨by decide, by decide, by decide, by decide, by decide⟩
  have first : Bytes.FirstAt Indicator.magic (g ++ m) g.length := ⟨by decide, by decide⟩
  exact ⟨⟨whole, first⟩, scan_append whole first 0 rest⟩

end GribCatalog
