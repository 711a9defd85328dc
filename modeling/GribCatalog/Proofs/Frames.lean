import GribCatalog.Proofs.Address

/-! Where a scan stops. It goes from magic to magic, and the frame at each of them says
how many bytes are passed over. A message of another edition, or one that ends in an
end marker, is passed over by the length that it declares itself, so a message further
on is met exactly when none of these lengths reaches into it. -/

namespace GribCatalog

theorem Bytes.exists_firstAt {pat bs : Bytes} {i : Nat} (h : pat <+: bs.drop i) :
    ∃ j, FirstAt pat bs j := by
  induction i using Nat.strongRecOn with
  | _ i ih =>
    by_cases earlier : ∃ j < i, pat <+: bs.drop j
    · obtain ⟨j, hj, hpat⟩ := earlier
      exact ih j hj hpat
    · exact ⟨i, h, fun j hj hpat => earlier ⟨j, hj, hpat⟩⟩

structure Stop where
  place : Nat
  bytes : Bytes

namespace Stop

def frame (s : Stop) : Frame :=
  Frame.ofBytes s.place s.bytes

/-- Where the scan goes on. -/
def finish (s : Stop) : Nat :=
  s.place + s.frame.length

def items (file : UInt32) (s : Stop) : List ScanItem :=
  s.frame.items file s.place s.bytes

theorem place_lt_finish (s : Stop) : s.place < s.finish :=
  Nat.lt_add_of_pos_right (Frame.length_pos s.place s.bytes)

end Stop

/-- The stops of a scan of the bytes from byte `offset` of a file on. -/
def stopsFrom (offset : Nat) (bs : Bytes) : List Stop :=
  match _h : Bytes.seek? Indicator.magic 0 bs with
  | none => []
  | some (skipped, rest) =>
    ⟨offset + skipped, rest⟩ ::
      stopsFrom (Stop.finish ⟨offset + skipped, rest⟩)
        (rest.drop (Stop.frame ⟨offset + skipped, rest⟩).length)
termination_by bs.length
decreasing_by
  have := Bytes.seek?_length _h
  have : 0 < (Stop.frame ⟨offset + skipped, rest⟩).length := Frame.length_pos _ rest
  simp
  omega

theorem stopsFrom_of_some {offset skipped : Nat} {bs rest : Bytes}
    (h : Bytes.seek? Indicator.magic 0 bs = some (skipped, rest)) :
    stopsFrom offset bs = ⟨offset + skipped, rest⟩ ::
      stopsFrom (Stop.finish ⟨offset + skipped, rest⟩)
        (rest.drop (Stop.frame ⟨offset + skipped, rest⟩).length) := by
  rw [stopsFrom]
  split
  · next h' => rw [h] at h'; cases h'
  · next h' =>
    rw [h] at h'
    cases h'
    rfl

theorem scanFrom_eq_flatMap (file : UInt32) (offset : Nat) (bs : Bytes) :
    scanFrom file offset bs = (stopsFrom offset bs).flatMap (Stop.items file) := by
  fun_induction stopsFrom offset bs with
  | case1 offset bs h => exact scanFrom_of_none h
  | case2 offset bs skipped rest h ih =>
    rw [scanFrom_of_some h, List.flatMap_cons, ← ih]
    rfl

theorem bytes_of_mem_stopsFrom {offset : Nat} {bs : Bytes} {s : Stop}
    (h : s ∈ stopsFrom offset bs) :
    ∃ i, s = ⟨offset + i, bs.drop i⟩ ∧ Indicator.magic <+: bs.drop i := by
  fun_induction stopsFrom offset bs with
  | case1 => cases h
  | case2 offset bs skipped rest hseek ih =>
    obtain ⟨first, rfl⟩ := (Bytes.seek?_eq_some_iff (by decide)).mp hseek
    rcases List.mem_cons.mp h with rfl | h
    · exact ⟨skipped, rfl, first.1⟩
    · obtain ⟨i, rfl, hmagic⟩ := ih h
      rw [List.drop_drop, List.drop_drop] at *
      refine ⟨skipped + ((Stop.frame ⟨offset + skipped, bs.drop skipped⟩).length + i), ?_, ?_⟩
      · simp only [Stop.finish, Nat.add_assoc]
      · simpa only [Nat.add_assoc] using hmagic

/-- The stops of a scan come one after the other, each where the one before is done or later. -/
theorem pairwise_stopsFrom (offset : Nat) (bs : Bytes) :
    (stopsFrom offset bs).Pairwise fun s t => s.finish ≤ t.place := by
  fun_induction stopsFrom offset bs with
  | case1 => exact List.Pairwise.nil
  | case2 offset bs skipped rest hseek ih =>
    refine List.Pairwise.cons (fun t ht => ?_) ih
    obtain ⟨i, rfl, -⟩ := bytes_of_mem_stopsFrom ht
    exact Nat.le_add_right _ i

theorem finish_le_of_mem_stopsFrom {offset : Nat} {bs : Bytes} {s t : Stop}
    (hs : s ∈ stopsFrom offset bs) (ht : t ∈ stopsFrom offset bs) (h : s.place < t.place) :
    s.finish ≤ t.place := by
  obtain ⟨i, hi, rfl⟩ := List.getElem_of_mem hs
  obtain ⟨j, hj, rfl⟩ := List.getElem_of_mem ht
  have order := List.pairwise_iff_getElem.mp (pairwise_stopsFrom offset bs)
  rcases Nat.lt_trichotomy i j with hij | rfl | hji
  · exact order i j hi hj hij
  · omega
  · have := order j i hj hi hji
    have := ((stopsFrom offset bs)[j]).place_lt_finish
    omega

/-- When the scan is done with what stands before the rest of a stream just where the rest begins,
it stops in the rest where a scan of the rest alone does. -/
theorem stopsFrom_append {offset : Nat} {g rest : Bytes} (hmagic : Indicator.magic <+: rest)
    (ends : ∀ s ∈ stopsFrom offset (g ++ rest), s.place < offset + g.length →
      s.finish ≤ offset + g.length) :
    stopsFrom (offset + g.length) rest <:+ stopsFrom offset (g ++ rest) := by
  -- the bytes before the rest get fewer with every stop
  induction hn : g.length using Nat.strongRecOn generalizing g offset with
  | _ n ih =>
    subst hn
    have here : Indicator.magic <+: (g ++ rest).drop g.length := by rwa [List.drop_left]
    obtain ⟨skipped, first⟩ := Bytes.exists_firstAt here
    have hseek := (Bytes.seek?_eq_some_iff (by decide)).mpr ⟨first, rfl⟩
    have hle : skipped ≤ g.length := Nat.le_of_not_lt fun hlt => first.2 _ hlt here
    rcases Nat.eq_or_lt_of_le hle with rfl | hlt
    · rw [List.drop_left] at hseek
      have hrest : Bytes.seek? Indicator.magic 0 rest = some (0, rest) :=
        (Bytes.seek?_eq_some_iff (by decide)).mpr
          ⟨⟨hmagic, fun j hj => absurd hj (Nat.not_lt_zero j)⟩, rfl⟩
      rw [stopsFrom_of_some hseek, stopsFrom_of_some hrest]
      exact List.suffix_refl _
    · rw [stopsFrom_of_some hseek] at ends ⊢
      generalize hs : Stop.mk (offset + skipped) ((g ++ rest).drop skipped) = s at ends ⊢
      have hplace : s.place = offset + skipped := hs ▸ rfl
      have hend := ends s List.mem_cons_self (by omega)
      have hpos := s.place_lt_finish
      rw [Stop.finish] at hend hpos
      have hafter : ((g ++ rest).drop skipped).drop s.frame.length =
          g.drop (skipped + s.frame.length) ++ rest := by
        rw [List.drop_drop, List.drop_append_of_le_length (by omega)]
      have hreach : s.finish + (g.drop (skipped + s.frame.length)).length =
          offset + g.length := by
        rw [Stop.finish, List.length_drop]
        omega
      rw [hafter] at ends ⊢
      have later : ∀ t ∈ stopsFrom s.finish (g.drop (skipped + s.frame.length) ++ rest),
          t.place < s.finish + (g.drop (skipped + s.frame.length)).length →
            t.finish ≤ s.finish + (g.drop (skipped + s.frame.length)).length := by
        rw [hreach]
        exact fun t ht => ends t (List.mem_cons_of_mem _ ht)
      have hsuffix := ih _ (by rw [List.length_drop]; omega) later rfl
      rw [hreach] at hsuffix
      exact hsuffix.trans (List.suffix_cons _ _)

theorem scanFrom_append_suffix {offset : Nat} {g rest : Bytes} (hmagic : Indicator.magic <+: rest)
    (ends : ∀ s ∈ stopsFrom offset (g ++ rest), s.place < offset + g.length →
      s.finish ≤ offset + g.length) (file : UInt32) :
    scanFrom file (offset + g.length) rest <:+ scanFrom file offset (g ++ rest) := by
  obtain ⟨before, hbefore⟩ := stopsFrom_append hmagic ends
  rw [scanFrom_eq_flatMap, scanFrom_eq_flatMap, ← hbefore, List.flatMap_append]
  exact List.suffix_append _ _

/-! ### A message behind other bytes -/

theorem Indicator.magic_apart {bs : Bytes} {i j : Nat} (hi : magic <+: bs.drop i)
    (hj : magic <+: bs.drop j) (h : i < j) : i + 4 ≤ j := by
  have hfirst : bs[j]? = some 0x47 := by
    simpa [magic] using List.prefix_iff_getElem?.mp hj 0 (by decide)
  have hbyte (k : Nat) (hk : k < magic.length) : bs[i + k]? = some magic[k] := by
    simpa using List.prefix_iff_getElem?.mp hi k hk
  refine Nat.le_of_not_lt fun hlt => ?_
  obtain rfl | rfl | rfl : j = i + 1 ∨ j = i + 2 ∨ j = i + 3 := by omega
  · exact absurd ((hbyte 1 (by decide)).symm.trans hfirst) (by decide)
  · exact absurd ((hbyte 2 (by decide)).symm.trans hfirst) (by decide)
  · exact absurd ((hbyte 3 (by decide)).symm.trans hfirst) (by decide)

namespace Frame

/-- Whether a scan goes on inside of the frame, just past its magic. -/
def isBroken : Frame → Bool
  | broken _ => true
  | _ => false

theorem length_of_isBroken {frame : Frame} (h : frame.isBroken = true) : frame.length = 4 := by
  cases frame with
  | broken fault => rfl
  | otherEdition fault length => cases h
  | message indicator => cases h

end Frame

theorem Stop.offset_of_mem_items {file : UInt32} {s : Stop} {f : Field}
    (h : .ok f ∈ s.items file) : f.offset = s.place := by
  obtain ⟨_, _, -, hoffset, -⟩ := Frame.mem_items h
  exact hoffset

namespace Message.Whole

variable {m : Bytes}

theorem offset_eq_zero (whole : Whole m) {file : UInt32} {f : Field}
    (h : f ∈ ScanItem.fields (scan file m)) : f.offset = 0 := by
  rw [ScanItem.mem_fields, whole.scan_eq] at h
  have hframe := whole.frame 0 []
  rw [List.append_nil] at hframe
  exact Stop.offset_of_mem_items (s := ⟨0, m⟩) (by rwa [Stop.items, Stop.frame, hframe])

theorem mem_fields_of_ends (whole : Whole m) {file : UInt32} {g rest : Bytes}
    (ends : ∀ s ∈ stopsFrom 0 (g ++ (m ++ rest)), s.place < g.length → s.finish ≤ g.length)
    {f : Field} (h : f ∈ ScanItem.fields (scan file m)) :
    f.moved id g.length ∈ ScanItem.fields (scan file (g ++ (m ++ rest))) := by
  rw [ScanItem.mem_fields] at h ⊢
  have hsuffix := scanFrom_append_suffix (whole.magic.trans (List.prefix_append m rest))
    (by rwa [Nat.zero_add]) file
  rw [Nat.zero_add, whole.scanFrom_append] at hsuffix
  refine hsuffix.subset (List.mem_append_left _ ?_)
  have hmoved := Frame.items_moved id g.length file 0 m (.message (indicator m))
  rw [whole.scan_eq] at h
  rw [show (Frame.message (indicator m)).items file g.length m = _ from hmoved]
  exact List.mem_map_of_mem h

/-- The fields of a whole message are met behind any bytes exactly when no frame that is passed
over by its own length reaches from there into the message. -/
theorem fields_behind_iff (whole : Whole m) {file : UInt32} {f : Field}
    (yields : f ∈ ScanItem.fields (scan file m)) (g rest : Bytes) :
    (∀ f ∈ ScanItem.fields (scan file m),
        f.moved id g.length ∈ ScanItem.fields (scan file (g ++ (m ++ rest)))) ↔
      ∀ s ∈ stopsFrom 0 (g ++ (m ++ rest)), s.frame.isBroken = false → s.place < g.length →
        s.finish ≤ g.length := by
  constructor
  · intro met s hs _ hbefore
    have hf := met f yields
    rw [ScanItem.mem_fields, scan, scanFrom_eq_flatMap] at hf
    obtain ⟨t, ht, hitem⟩ := List.mem_flatMap.mp hf
    have hplace : t.place = g.length := by
      rw [← Stop.offset_of_mem_items hitem, Field.moved, whole.offset_eq_zero yields,
        Nat.add_zero]
    exact hplace ▸ finish_le_of_mem_stopsFrom hs ht (hplace ▸ hbefore)
  · intro ends f hf
    refine whole.mem_fields_of_ends (fun s hs hbefore => ?_) hf
    cases hbroken : s.frame.isBroken with
    | false => exact ends s hs hbroken hbefore
    | true =>
      -- only the magic itself is passed over, and it ends before the one of the message
      obtain ⟨i, rfl, hmagic⟩ := bytes_of_mem_stopsFrom hs
      have hmessage : Indicator.magic <+: (g ++ (m ++ rest)).drop g.length := by
        rw [List.drop_left]
        exact whole.magic.trans (List.prefix_append m rest)
      simp only [Nat.zero_add] at *
      have := Indicator.magic_apart hmagic hmessage hbefore
      rw [Stop.finish, Frame.length_of_isBroken hbroken]
      exact this

/-- Behind the header of an older message that ends where it says. -/
theorem fields_behind_header :
    let header : Bytes := [0x47, 0x52, 0x49, 0x42, 0, 0, 8, 1]
    let m := june 1
    (Whole m ∧ ∃ f, f ∈ ScanItem.fields (scan 0 m)) ∧
      ∀ f ∈ ScanItem.fields (scan 0 m),
        f.moved id 8 ∈ ScanItem.fields (scan 0 (header ++ (m ++ [0x47]))) := by
  intro header m
  have yields : ∃ f, f ∈ ScanItem.fields (scan 0 m) :=
    List.exists_mem_of_length_pos (by decide +kernel)
  obtain ⟨f, hf⟩ := yields
  have reached := ((whole_june 1).fields_behind_iff hf header [0x47]).mpr (by decide +kernel)
  exact ⟨⟨whole_june 1, f, hf⟩, reached⟩

end Message.Whole

/-- The header of an older message that is cut off hides the message after it: its length, which
is more than there is of it alone, reaches into that message. -/
theorem fields_hidden_by_header :
    ¬ ∀ (file : UInt32) (g m : Bytes), ScanItem.fields (scan file g) = [] → Message.Whole m →
      ScanItem.faults (scan file m) = [] → ∀ f ∈ ScanItem.fields (scan file m),
        f.moved id g.length ∈ ScanItem.fields (scan file (g ++ m)) := by
  intro met
  let header : Bytes := [0x47, 0x52, 0x49, 0x42, 0, 0, 12, 1]
  have faulty : ScanItem.fields (scan 0 header) = [] := by decide +kernel
  have faultless : ScanItem.faults (scan 0 (Message.june 1)) = [] := by decide +kernel
  obtain ⟨f, hf⟩ : ∃ f, f ∈ ScanItem.fields (scan 0 (Message.june 1)) :=
    List.exists_mem_of_length_pos (by decide +kernel)
  have hidden : ScanItem.fields (scan 0 (header ++ Message.june 1)) = [] := by decide +kernel
  have hmet := met 0 header (Message.june 1) faulty (Message.whole_june 1) faultless f hf
  rw [hidden] at hmet
  cases hmet

end GribCatalog
