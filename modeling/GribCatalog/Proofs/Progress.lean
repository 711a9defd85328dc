import GribCatalog.Proofs.Frames
import GribCatalog.Proofs.Guarded

/-! A scan as a machine. It queues the items of one stop at a time and hands them out one by one,
with a guard on every access to the stream and every sum. No guard is ever met, each
stop takes the machine on by four bytes or more for every item, and so it comes to the items of the
whole stream and to an end. -/

namespace GribCatalog

/-! ### What a stop takes and yields -/

namespace Message

theorem fields_ne_nil {file : UInt32} {offset : Nat} {indicator : Indicator} {m : Bytes}
    {items : List ScanItem} (h : fields file offset indicator m = .ok items) : items ≠ [] := by
  unfold fields at h
  split at h
  · cases h
  · obtain ⟨sections, -, h⟩ := Except.bind_eq_ok_iff.mp h
    obtain ⟨first, -, h⟩ := Except.bind_eq_ok_iff.mp h
    obtain ⟨source, -, h⟩ := Except.bind_eq_ok_iff.mp h
    split at h
    · cases h
    · next hproducts =>
      cases h
      simpa using hproducts

theorem length_fields_le {file : UInt32} {offset : Nat} {indicator : Indicator} {m : Bytes}
    {items : List ScanItem} (h : fields file offset indicator m = .ok items) :
    5 * items.length ≤ m.length := by
  obtain ⟨sections, source, hsections, -, rfl⟩ := fields_eq_ok h
  have hwalk := Section.length_of_chain hsections
  have hfilter := List.length_filter_le (fun s : Section => decide (s.number = 4)) sections
  simp only [List.length_drop, List.length_mapIdx] at *
  omega

end Message

namespace Frame

theorem four_le_length (offset : Nat) (bs : Bytes) : 4 ≤ (ofBytes offset bs).length := by
  unfold ofBytes
  repeat' split
  all_goals simp only [length, leastLength] at *
  all_goals omega

theorem length_le {bs : Bytes} (offset : Nat) (h : 4 ≤ bs.length) :
    (ofBytes offset bs).length ≤ bs.length := by
  unfold ofBytes
  repeat' split
  all_goals simp only [length] at *
  all_goals omega

end Frame

namespace Stop

variable (file : UInt32) (s : Stop)

theorem items_ne_nil : s.items file ≠ [] := by
  rw [items]
  cases s.frame with
  | broken fault => exact List.cons_ne_nil _ _
  | otherEdition fault length => exact List.cons_ne_nil _ _
  | message indicator =>
    rw [Frame.items]
    split
    · exact List.cons_ne_nil _ _
    · next h => exact Message.fields_ne_nil h

/-- A stop takes four bytes for every item at least. -/
theorem length_items_le : 4 * (s.items file).length ≤ s.frame.length := by
  have hleast := Frame.four_le_length s.place s.bytes
  rw [items]
  rw [← frame] at hleast
  cases hframe : s.frame with
  | broken fault => simp [Frame.items, Frame.length]
  | otherEdition fault length =>
    rw [hframe] at hleast
    simpa [Frame.items] using hleast
  | message indicator =>
    rw [hframe] at hleast
    rw [Frame.items]
    split
    · simpa using hleast
    · next h =>
      have := Message.length_fields_le h
      simp only [List.length_take, Frame.length] at *
      omega

end Stop

theorem Bytes.length_of_seek? {bs rest : Bytes} {skipped : Nat}
    (h : seek? Indicator.magic 0 bs = some (skipped, rest)) :
    rest = bs.drop skipped ∧ Indicator.magic <+: rest ∧ skipped + rest.length = bs.length ∧
      4 ≤ rest.length := by
  obtain ⟨first, rfl⟩ := (seek?_eq_some_iff (by decide)).mp h
  have hleast : 4 ≤ (bs.drop skipped).length := first.1.length_le
  refine ⟨rfl, first.1, ?_, hleast⟩
  rw [List.length_drop] at *
  omega

/-- For every item of a stream four bytes of it can be told. -/
theorem length_scanFrom_le (file : UInt32) (offset : Nat) (bs : Bytes) :
    4 * (scanFrom file offset bs).length ≤ bs.length := by
  rw [scanFrom_eq_flatMap]
  fun_induction stopsFrom offset bs with
  | case1 => exact Nat.zero_le _
  | case2 offset bs skipped rest hseek ih =>
    obtain ⟨-, -, hlength, hleast⟩ := Bytes.length_of_seek? hseek
    have hitems := Stop.length_items_le file ⟨offset + skipped, rest⟩
    have hframe := Frame.length_le (offset + skipped) hleast
    rw [List.flatMap_cons, List.length_append]
    rw [List.length_drop] at ih
    simp only [Stop.frame] at *
    omega

/-! ### The machine -/

structure Scanner where
  position : Nat := 0
  /-- Items that were met and are not handed out yet. -/
  pending : List ScanItem := []
  isDone : Bool := false

namespace Scanner

open Guarded (range? add? sub?)

def magicFrom? (data : Bytes) (start : Nat) : Option (Option Nat) := do
  if data.length ≤ start then return none
  else
    let rest ← range? data start data.length
    match Bytes.seek? Indicator.magic 0 rest with
    | none => return none
    | some (skipped, _) => return some (← add? start skipped)

/-- The scanner past a stop, with the items of the stop in its queue. -/
def pass (s : Scanner) (next : Nat) (items : List ScanItem) : Scanner :=
  { s with position := next, pending := s.pending ++ items }

def resync? (s : Scanner) (start : Nat) (fault : ScanFault) : Option Scanner := do
  return s.pass (← add? start 4) [.error fault]

/-- Goes on to the next magic and past what stands there. -/
def advance? (file : UInt32) (data : Bytes) (s : Scanner) : Option Scanner := do
  match ← magicFrom? data s.position with
  | none => return { s with isDone := true }
  | some start =>
    let rest ← range? data start data.length
    match ← (Guarded.indicator start rest).run with
    | .error fault => s.resync? start fault
    | .ok indicator =>
      let available ← sub? data.length start
      if indicator.length < Frame.leastLength then
        s.resync? start (.frame start (.implausibleLength indicator.length))
      else if available < indicator.length then
        s.resync? start (.truncated start indicator.length available)
      else
        let stop ← add? start indicator.length
        if indicator.edition ≠ 2 then
          return s.pass stop [.error (.edition indicator.edition start)]
        else
          let marker ← range? data (← sub? stop 4) stop
          if marker ≠ Section.endMarker then s.resync? start (.frame start .noEndMarker)
          else
            let message ← range? data start stop
            match ← (Guarded.fields file start indicator message).run with
            | .error fault => return s.pass stop [.error fault]
            | .ok fields => return s.pass stop fields

/-- Hands out an item, or says that there are none, in so many turns of a loop at most. -/
def next? (file : UInt32) (data : Bytes) : Nat → Scanner → Option (Option ScanItem × Scanner)
  | 0, _ => none
  | turns + 1, s =>
    match s.pending with
    | item :: pending => some (some item, { s with pending })
    | [] => if s.isDone then some (none, s) else (s.advance? file data).bind (next? file data turns)

/-- All items that are handed out, one for each of so many calls at most, up to the call that says
that there are no more. -/
def items? (file : UInt32) (data : Bytes) : Nat → Scanner → Option (List ScanItem)
  | 0, _ => none
  | calls + 1, s => do
    match ← next? file data 2 s with
    | (none, _) => return []
    | (some item, next) => return item :: (← items? file data calls next)

variable {data : Bytes} {start : Nat}

theorem range?_drop (h : start ≤ data.length) :
    range? data start data.length = some (data.drop start) := by
  rw [Guarded.range?_eq h (Nat.le_refl _), Bytes.slice, ← List.length_drop, List.take_length]

theorem magicFrom?_eq (short : data.length < signedLimit) (start : Nat) :
    magicFrom? data start =
      some ((Bytes.seek? Indicator.magic 0 (data.drop start)).map fun p => start + p.1) := by
  rw [magicFrom?]
  split
  · next h => rw [List.drop_eq_nil_of_le h]; rfl
  · next h =>
    rw [range?_drop (Nat.le_of_not_le h)]
    cases hseek : Bytes.seek? Indicator.magic 0 (data.drop start) with
    | none => simp [hseek]
    | some found =>
      obtain ⟨-, -, hlength, -⟩ := Bytes.length_of_seek? hseek
      rw [List.length_drop] at hlength
      have hsum : add? start found.1 = some (start + found.1) :=
        Guarded.add?_eq (by omega) (by omega)
      simp [hseek, hsum]

theorem resync?_eq (short : data.length < signedLimit) (s : Scanner) (h : start + 4 ≤ data.length)
    (fault : ScanFault) : s.resync? start fault = some (s.pass (start + 4) [.error fault]) := by
  rw [resync?, Guarded.add?_eq (by omega) (by decide)]
  rfl

theorem advance?_of_seek? (file : UInt32) (short : data.length < signedLimit) {s : Scanner}
    {skipped : Nat} {rest : Bytes}
    (h : Bytes.seek? Indicator.magic 0 (data.drop s.position) = some (skipped, rest)) :
    s.advance? file data = some (s.pass (Stop.finish ⟨s.position + skipped, rest⟩)
      (Stop.items file ⟨s.position + skipped, rest⟩)) := by
  obtain ⟨hdrop, -, -, hleast⟩ := Bytes.length_of_seek? h
  rw [List.drop_drop] at hdrop
  rw [advance?, magicFrom?_eq short, h]
  simp only [Option.map_some, Option.bind_eq_bind, Option.bind_some]
  generalize s.position + skipped = start at *
  have hrest : rest.length = data.length - start := by rw [hdrop, List.length_drop]
  have hresync (fault : ScanFault) :
      s.resync? start fault = some (s.pass (start + 4) [.error fault]) :=
    resync?_eq short s (by omega) fault
  rw [range?_drop (by omega), ← hdrop, Option.bind_some, Guarded.indicator_eq start,
    Guarded.run_ofResult, Option.bind_some, Stop.finish, Stop.items, Stop.frame, Frame.ofBytes]
  cases Indicator.read start rest with
  | error fault => exact hresync fault
  | ok indicator =>
    dsimp only
    rw [Guarded.sub?_eq (by omega), Option.bind_some, ← hrest]
    split
    · exact hresync _
    split
    · exact hresync _
    next hleast hlong =>
    rw [Frame.leastLength, Nat.not_lt] at hleast
    rw [Nat.not_lt] at hlong
    rw [Guarded.add?_eq (by omega) (by omega), Option.bind_some]
    split
    · rfl
    have hslice : data.slice start indicator.length = rest.take indicator.length := by
      rw [Bytes.slice, ← hdrop]
    have hmarker : data.slice (start + indicator.length - 4) 4 =
        rest.slice (indicator.length - 4) 4 := by
      rw [hdrop, Bytes.slice_drop, Nat.add_sub_assoc (by omega)]
    rw [Guarded.sub?_eq (by omega), Option.bind_some,
      Guarded.range?_eq (by omega) (by omega), Option.bind_some,
      show start + indicator.length - (start + indicator.length - 4) = 4 by omega, hmarker]
    split
    · exact hresync _
    rw [Guarded.range?_eq (Nat.le_add_right _ _) (by omega), Option.bind_some,
      Nat.add_sub_cancel_left, hslice,
      Guarded.fields_eq file start indicator (by rw [List.length_take]; omega),
      Guarded.run_ofResult, Option.bind_some, Frame.items]
    cases Message.fields file start indicator (rest.take indicator.length) <;> rfl

theorem advance?_of_none (file : UInt32) (short : data.length < signedLimit) {s : Scanner}
    (h : Bytes.seek? Indicator.magic 0 (data.drop s.position) = none) :
    s.advance? file data = some { s with isDone := true } := by
  rw [advance?, magicFrom?_eq short, h]
  rfl

/-! ### Its items -/

def remaining (file : UInt32) (data : Bytes) (s : Scanner) : List ScanItem :=
  s.pending ++ if s.isDone then [] else scanFrom file s.position (data.drop s.position)

theorem scanFrom_of_seek? (file : UInt32) {position skipped : Nat} {rest : Bytes}
    (h : Bytes.seek? Indicator.magic 0 (data.drop position) = some (skipped, rest)) :
    scanFrom file position (data.drop position) =
      Stop.items file ⟨position + skipped, rest⟩ ++
        scanFrom file (Stop.finish ⟨position + skipped, rest⟩)
          (data.drop (Stop.finish ⟨position + skipped, rest⟩)) := by
  obtain ⟨hdrop, -, -, -⟩ := Bytes.length_of_seek? h
  have hafter : data.drop (Stop.finish ⟨position + skipped, rest⟩) =
      rest.drop (Stop.frame ⟨position + skipped, rest⟩).length := by
    conv => rhs; arg 2; rw [hdrop]
    rw [List.drop_drop, List.drop_drop, Stop.finish, Nat.add_assoc]
  rw [scanFrom_of_some h, hafter]
  rfl

/-- One call hands out the first item that remains, and its loop ends with the second turn. -/
theorem next?_eq (file : UInt32) (short : data.length < signedLimit) (s : Scanner) :
    ∃ next, next? file data 2 s = some ((s.remaining file data).head?, next) ∧
      next.remaining file data = (s.remaining file data).tail := by
  obtain ⟨position, pending, isDone⟩ := s
  cases pending with
  | cons item pending => exact ⟨_, rfl, rfl⟩
  | nil =>
    cases isDone with
    | true => exact ⟨_, rfl, rfl⟩
    | false =>
      have hturn : next? file data 2 ⟨position, [], false⟩ =
          (advance? file data ⟨position, [], false⟩).bind (next? file data 1) := rfl
      rw [hturn]
      cases hseek : Bytes.seek? Indicator.magic 0 (data.drop position) with
      | none =>
        rw [advance?_of_none file short hseek]
        simp [remaining, next?, scanFrom_of_none hseek]
      | some found =>
        obtain ⟨skipped, rest⟩ := found
        obtain ⟨item, items, hitems⟩ := List.exists_cons_of_ne_nil
          (Stop.items_ne_nil file ⟨position + skipped, rest⟩)
        rw [advance?_of_seek? file short hseek, hitems]
        refine ⟨⟨Stop.finish ⟨position + skipped, rest⟩, items, false⟩, ?_, ?_⟩
        · simp [remaining, scanFrom_of_seek? file hseek, hitems, pass, next?]
        · simp [remaining, scanFrom_of_seek? file hseek, hitems]

theorem items?_eq (file : UInt32) (short : data.length < signedLimit) {calls : Nat} {s : Scanner}
    (enough : (s.remaining file data).length < calls) :
    items? file data calls s = some (s.remaining file data) := by
  induction calls generalizing s with
  | zero => omega
  | succ calls ih =>
    obtain ⟨next, hnext, hremaining⟩ := next?_eq file short s
    rw [items?, hnext]
    cases hitems : s.remaining file data with
    | nil => rfl
    | cons item items =>
      rw [hitems] at enough hremaining
      rw [List.tail_cons] at hremaining
      rw [List.length_cons] at enough
      have hrest := ih (s := next) (by rw [hremaining]; omega)
      rw [hremaining] at hrest
      simp [hrest]

/-- A step that finds a magic passes four bytes at least and queues an item at least. -/
theorem advance?_cases (file : UInt32) (short : data.length < signedLimit) (s : Scanner) :
    ((∀ i, s.position ≤ i → ¬ Indicator.magic <+: data.drop i) ∧
      s.advance? file data = some { s with isDone := true }) ∨
    ∃ i next items, s.position ≤ i ∧ Indicator.magic <+: data.drop i ∧ i + 4 ≤ next ∧
      next ≤ data.length ∧ items ≠ [] ∧ s.advance? file data = some (s.pass next items) := by
  cases hseek : Bytes.seek? Indicator.magic 0 (data.drop s.position) with
  | none =>
    refine .inl ⟨fun i hi hmagic => ?_, advance?_of_none file short hseek⟩
    obtain ⟨k, rfl⟩ := Nat.exists_eq_add_of_le hi
    rw [← List.drop_drop] at hmagic
    obtain ⟨j, hfirst⟩ := Bytes.exists_firstAt hmagic
    have hfound := (Bytes.seek?_eq_some_iff (by decide)).mpr ⟨hfirst, rfl⟩
    rw [hfound] at hseek
    cases hseek
  | some found =>
    obtain ⟨skipped, rest⟩ := found
    obtain ⟨hdrop, hmagic, hlength, hleast⟩ := Bytes.length_of_seek? hseek
    rw [List.drop_drop] at hdrop
    have hfour := Frame.four_le_length (s.position + skipped) rest
    have hframe := Frame.length_le (s.position + skipped) hleast
    rw [List.length_drop] at hlength
    refine .inr ⟨s.position + skipped, _, _, Nat.le_add_right _ _, hdrop ▸ hmagic, ?_, ?_,
      Stop.items_ne_nil file _, advance?_of_seek? file short hseek⟩
    · exact Nat.add_le_add_left hfour _
    · simp only [Stop.finish, Stop.frame]
      omega

/-- On every stream, with a guard on every access and every sum: the scan ends and hands out the
items of the stream, no more of them than the stream has four bytes, and from any state a step at a
magic goes on by four bytes at least and queues an item at least. -/
theorem items?_eq_scan (file : UInt32) {data : Bytes} (short : data.length < 2 ^ 63) :
    items? file data (data.length / 4 + 1) {} = some (scan file data) ∧
      (scan file data).length ≤ data.length / 4 ∧
      ∀ s : Scanner,
        ((∀ i, s.position ≤ i → ¬ Indicator.magic <+: data.drop i) ∧
          s.advance? file data = some { s with isDone := true }) ∨
        ∃ i next items, s.position ≤ i ∧ Indicator.magic <+: data.drop i ∧ i + 4 ≤ next ∧
          next ≤ data.length ∧ items ≠ [] ∧ s.advance? file data = some (s.pass next items) := by
  have hfew := length_scanFrom_le file 0 data
  have hremaining : remaining file data {} = scan file data := rfl
  refine ⟨?_, ?_, advance?_cases file short⟩
  · rw [← hremaining]
    refine items?_eq file short ?_
    rw [hremaining, scan]
    omega
  · rw [scan]
    omega

/-- A header of an older message of eight bytes, a message of one field, and a magic that the stream
ends with: three items. -/
theorem items?_eq_scan_june :
    let data : Bytes := [0x47, 0x52, 0x49, 0x42, 0, 0, 8, 1] ++ (Message.june 1 ++ Indicator.magic)
    data.length < 2 ^ 63 ∧ (items? 0 data 22 {}).map (List.map Except.isOk) =
        some [false, true, false] ∧
      items? 0 data 22 {} = some (scan 0 data) ∧ (scan 0 data).length ≤ 21 := by
  intro data
  have short : data.length < 2 ^ 63 := by decide
  have quarter : data.length / 4 = 21 := by decide
  obtain ⟨handed, few, -⟩ := items?_eq_scan 0 short
  rw [quarter] at handed few
  refine ⟨short, ?_, handed, few⟩
  rw [handed]
  decide +kernel

end Scanner

end GribCatalog
