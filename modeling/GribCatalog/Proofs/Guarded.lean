import GribCatalog.Proofs.Address
import GribCatalog.Proofs.Walk
import GribCatalog.Space.Options
import Mathlib.Algebra.Ring.Nat
import Mathlib.Data.List.Induction

/-! Reading under guard. A slice or an index out of range, and a sum that a word does not hold, are
the end of a guarded reading, and no fault that could be reported. No message comes to
that: under guard it reads as it does without, whatever its bytes are. -/

namespace GribCatalog

/-- Byte strings are shorter than this, and signed words hold the numbers below it. -/
def signedLimit : Nat := Nat.pow 2 63

/-- A reading that may meet a fault, or may come to an end that is not to be reported. -/
abbrev Guarded (α : Type) := ExceptT ScanFault Option α

theorem Bytes.word_lt (bs : Bytes) : word bs < 256 ^ bs.length := by
  induction bs using List.reverseRecOn with
  | nil => decide
  | append_singleton bs b ih =>
    have := b.toNat_lt
    rw [word_append, List.length_append, List.length_singleton, Nat.pow_succ]
    omega

theorem Bytes.wordAt_lt (bs : Bytes) (start width : Nat) :
    bs.wordAt start width < 256 ^ width :=
  Nat.lt_of_lt_of_le (word_lt _)
    (Nat.pow_le_pow_right (by decide) (List.length_take_le width (bs.drop start)))

theorem Product.duration_lt {bs : Bytes} {unitAt countAt n : Nat}
    (h : duration bs unitAt countAt = .ok n) : n < 2 ^ 62 := by
  obtain ⟨unit, -, rfl⟩ := Except.map_eq_ok_iff.mp h
  have hcount := bs.wordAt_lt countAt 4
  have hunit : unit.seconds ≤ 86400 := by cases unit <;> decide
  calc bs.wordAt countAt 4 * unit.seconds ≤ 256 ^ 4 * 86400 :=
        Nat.mul_le_mul (Nat.le_of_lt hcount) hunit
    _ < 2 ^ 62 := by decide

namespace Guarded

/-! ### Guards -/

def within? (limit n : Nat) : Option Nat :=
  if n < limit then some n else none

def add? (a b : Nat) : Option Nat :=
  within? wordLimit (a + b)

def sub? (a b : Nat) : Option Nat :=
  if b ≤ a then some (a - b) else none

def byte? (bs : Bytes) (i : Nat) : Option UInt8 :=
  bs[i]?

def range? (bs : Bytes) (start stop : Nat) : Option Bytes :=
  if start ≤ stop ∧ stop ≤ bs.length then some (bs.slice start (stop - start)) else none

/-- The `width` byte word that starts at byte `start`, byte for byte. -/
def word? (bs : Bytes) (start width : Nat) : Option Nat :=
  ((List.range width).mapM fun i => (add? start i).bind (byte? bs)).map Bytes.word

def ofResult {α : Type} (result : Except ScanFault α) : Guarded α :=
  ExceptT.mk (some result)

/-! ### Readers -/

def indicator (offset : Nat) (bs : Bytes) : Guarded Indicator := do
  if bs.length < 8 then throw (.frame offset .shortIndicator)
  else
    let head ← range? bs 0 4
    if head ≠ Indicator.magic then throw (.frame offset .wrongMagic)
    else
      let edition ← byte? bs 7
      if edition = 1 then return ⟨0, 1, ← word? bs 4 3⟩
      else if edition = 2 then
        if bs.length < Section.indicatorLength then throw (.frame offset .shortIndicator)
        else return ⟨← byte? bs 6, 2, (← range? bs 8 16).word⟩
      else throw (.edition edition offset)

def identification (bs : Bytes) : Guarded Identification := do
  if bs.length < 19 then throw (.inSection 1 .tooShort)
  else
    let centre ← word? bs 5 2
    let subCentre ← word? bs 7 2
    let significance ← byte? bs 11
    let year ← word? bs 12 2
    let part (i : Nat) : Option Nat := (byte? bs i).map UInt8.toNat
    let month ← part 14
    let day ← part 15
    let hour ← part 16
    let minute ← part 17
    let second ← part 18
    match Instant.ofCivil? ⟨year, month, day⟩ hour minute second with
    | none => throw (.inSection 1 (.referenceTime year month day hour minute second))
    | some time => return ⟨UInt16.ofNat centre, UInt16.ofNat subCentre, significance, time⟩

def duration (bs : Bytes) (unitAt countAt : Nat) : Guarded Nat := do
  let code ← byte? bs unitAt
  let unit ← ofResult (TimeUnit.ofCode code)
  let count ← word? bs countAt 4
  within? signedLimit (count * unit.seconds)

def forecast (template offset : Nat) (bs : Bytes) : Guarded Forecast := do
  match Product.rangeStart? template with
  | none => return .instant offset
  | some start =>
    let range ← duration bs (start + 2) (start + 3)
    let stop ← within? signedLimit (offset + range)
    return .interval offset stop

def ensemble? (template : Nat) (bs : Bytes) : Option (Option EnsembleForecast) := do
  if template = 1 ∨ template = 11 then
    return some ⟨← byte? bs 34, ← byte? bs 35, ← byte? bs 36⟩
  else return none

def signMagnitude? (bs : Bytes) : Option Int :=
  if bs.length ≠ 4 then some 0
  else (word? bs 0 4).map fun n =>
    if Nat.pow 2 31 ≤ n then -((n - Nat.pow 2 31 : Nat) : Int) else n

def surface? (kind scale : UInt8) (scaled : Bytes) : Option (Option Surface) :=
  if kind = 255 then some none
  else if scale = 255 ∧ scaled.all (· = 255) then some (some ⟨kind, Binary64.zero⟩)
  else (signMagnitude? scaled).map fun n =>
    some ⟨kind, Surface.scaledValue (signMagnitudeOctet scale) n⟩

def product (bs : Bytes) : Guarded Product := do
  if bs.length < 9 then throw (.inSection 4 .tooShort)
  else
    let template ← word? bs 7 2
    match Product.templateLength? template with
    | none => throw (.template template)
    | some needed =>
      if bs.length < needed then
        throw (.inSection 4 (.shortTemplate template needed bs.length))
      else
        let category ← byte? bs 9
        let number ← byte? bs 10
        let offset ← duration bs 17 18
        let kind ← byte? bs 22
        let scale ← byte? bs 23
        let scaled ← range? bs 24 28
        let level ← surface? kind scale scaled
        let ensemble ← ensemble? template bs
        let forecast ← forecast template offset bs
        return { template, category, number, forecast, level, ensemble }

structure Extent where
  number : UInt8
  offset : Nat
  length : Nat

/-- Whether the end marker stands at a place of a message. -/
def isMarked? (message : Bytes) (offset : Nat) : Option Bool := do
  let stop ← add? offset 4
  if stop ≤ message.length then return (← range? message offset stop) = Section.endMarker
  else return false

/-- Whether no section of a length can stand at a place of a message. -/
def isMisfit? (message : Bytes) (offset length : Nat) : Option Bool := do
  if length < 5 then return true
  else return message.length < (← add? offset length)

/-- The sections of a message from byte `offset` on, in so many turns of a loop at most. -/
def extents (message : Bytes) : Nat → Nat → Guarded (List Extent)
  | 0, _ => (none : Option (List Extent))
  | turns + 1, offset => do
    if ← isMarked? message offset then return []
    else
      let head ← add? offset 5
      if message.length < head then throw (.inSection 8 .noEndMarker)
      else
        let length ← word? message offset 4
        let numberAt ← add? offset 4
        let number ← byte? message numberAt
        if ← isMisfit? message offset length then
          throw (.inSection number (.badLength length offset))
        else
          let next ← add? offset length
          let rest ← extents message turns next
          return ⟨number, offset, length⟩ :: rest

def Extent.bytes? (message : Bytes) (e : Extent) : Option Bytes := do
  range? message e.offset (← add? e.offset e.length)

def field (file : UInt32) (offset : Nat) (indicator : Indicator) (source : Identification)
    (message : Bytes) (index : Nat) (e : Extent) : Guarded Field := do
  let bs ← e.bytes? message
  let product ← product bs
  return {
    file
    offset
    length := indicator.length
    index := UInt16.ofNat index
    centre := source.centre
    referenceTime := source.referenceTime
    template := product.template
    parameter := ⟨indicator.discipline, product.category, product.number⟩
    forecast := product.forecast
    level := product.level
    ensemble := product.ensemble }

/-- The items of product definition sections. One that makes no field leaves its fault there. -/
def items? (file : UInt32) (offset : Nat) (indicator : Indicator) (source : Identification)
    (message : Bytes) (products : List Extent) : Option (List ScanItem) :=
  products.zipIdx.mapM fun (e, index) =>
    (field file offset indicator source message index e).run

def fields (file : UInt32) (offset : Nat) (indicator : Indicator) (message : Bytes) :
    Guarded (List ScanItem) := do
  if message.length < Section.indicatorLength then throw (.frame offset .shorterThanIndicator)
  else
    let layout ← extents message (message.length / 5 + 1) Section.indicatorLength
    match layout.find? (·.number = 1) with
    | none => throw (.inSection 1 .notFound)
    | some first =>
      let bs ← first.bytes? message
      let source ← identification bs
      let items ← items? file offset indicator source message (layout.filter (·.number = 4))
      if items.isEmpty then throw (.inSection 4 .noProduct) else return items

/-! ### Within the guards -/

section Within

variable {bs : Bytes} {start stop width i a b n limit : Nat}

theorem within?_eq (h : n < limit) : within? limit n = some n :=
  if_pos h

theorem add?_eq (ha : a < signedLimit) (hb : b < signedLimit) : add? a b = some (a + b) := by
  refine within?_eq ?_
  simp only [signedLimit, wordLimit, Nat.pow_eq] at *
  omega

theorem sub?_eq (h : b ≤ a) : sub? a b = some (a - b) :=
  if_pos h

theorem byte?_eq (h : i < bs.length) : byte? bs i = some (bs.byteAt i) := by
  simp [byte?, Bytes.byteAt, List.getD_eq_getElem?_getD, h]

theorem range?_eq (hstart : start ≤ stop) (hstop : stop ≤ bs.length) :
    range? bs start stop = some (bs.slice start (stop - start)) :=
  if_pos ⟨hstart, hstop⟩

theorem mapM_eq_some {α β : Type} {f : α → Option β} {g : α → β} {l : List α}
    (h : ∀ a ∈ l, f a = some (g a)) : l.mapM f = some (l.map g) := by
  refine Option.mapM_eq_some_of_forall₂ ?_
  rwa [List.forall₂_map_right_iff, List.forall₂_same]

theorem map_byteAt_range (h : start + width ≤ bs.length) :
    (List.range width).map (fun i => bs.byteAt (start + i)) = bs.slice start width := by
  refine List.ext_getElem (by simp [Bytes.slice]; omega) fun i hi hi' => ?_
  have hlt : start + i < bs.length := by
    simp only [List.length_map, List.length_range] at hi
    omega
  simp [Bytes.slice, Bytes.byteAt, List.getD_eq_getElem?_getD, hlt]

theorem word?_eq (h : start + width ≤ bs.length) (fits : start + width ≤ signedLimit) :
    word? bs start width = some (bs.wordAt start width) := by
  have hbytes : ∀ i ∈ List.range width,
      (add? start i).bind (byte? bs) = some (bs.byteAt (start + i)) := by
    intro i hi
    rw [List.mem_range] at hi
    rw [add?_eq (by omega) (by omega), Option.bind_some, byte?_eq (by omega)]
  rw [word?, mapM_eq_some hbytes, map_byteAt_range h]
  rfl

end Within

theorem lift_bind {α β : Type} (a : α) (f : α → Guarded β) :
    ((liftM (some a) : Guarded α) >>= f) = f a := rfl

theorem run_ofResult {α : Type} (result : Except ScanFault α) :
    (ofResult result).run = some result := rfl

theorem ofResult_bind {α β : Type} (result : Except ScanFault α) (f : α → Guarded β) :
    (ofResult result >>= f) = match result with
      | .ok a => f a
      | .error fault => throw fault := by
  cases result <;> rfl

/-! ### Readers without a guard -/

section Readers

variable {bs : Bytes}

theorem indicator_eq (offset : Nat) :
    indicator offset bs = ofResult (Indicator.read offset bs) := by
  rw [indicator, Indicator.read]
  split
  · rfl
  next hlength =>
  rw [range?_eq (Nat.zero_le 4) (by omega), byte?_eq (by omega : 7 < bs.length),
    word?_eq (by omega : 4 + 3 ≤ bs.length) (by decide)]
  simp only [lift_bind]
  rw [show bs.slice 0 (4 - 0) = bs.take 4 from rfl]
  split
  · rfl
  split
  · rfl
  split
  · split
    · rfl
    · next hlong =>
      rw [Section.indicatorLength, Nat.not_lt] at hlong
      rw [byte?_eq (by omega), range?_eq (by decide) hlong]
      rfl
  · rfl

theorem identification_eq :
    identification bs = ofResult (Identification.read bs) := by
  rw [identification, Identification.read]
  split
  · rfl
  next hlength =>
  have hbyte {i : Nat} (hi : i < 19) : byte? bs i = some (bs.byteAt i) := byte?_eq (by omega)
  have hword {i : Nat} (hi : i + 2 ≤ 19) : word? bs i 2 = some (bs.wordAt i 2) :=
    word?_eq (by omega) (Nat.le_trans hi (by decide))
  simp only [hbyte, hword, Nat.reduceLT, Nat.reduceLeDiff, Nat.reduceAdd, Option.map_some, lift_bind]
  cases Instant.ofCivil? ⟨bs.wordAt 12 2, (bs.byteAt 14).toNat, (bs.byteAt 15).toNat⟩
    (bs.byteAt 16).toNat (bs.byteAt 17).toNat (bs.byteAt 18).toNat <;> rfl

theorem duration_eq {unitAt countAt : Nat} (hunit : unitAt < bs.length)
    (hcount : countAt + 4 ≤ bs.length) (fits : countAt + 4 ≤ signedLimit) :
    duration bs unitAt countAt = ofResult (Product.duration bs unitAt countAt) := by
  rw [duration, byte?_eq hunit, word?_eq hcount fits, lift_bind, ofResult_bind]
  cases hcode : TimeUnit.ofCode (bs.byteAt unitAt) with
  | error fault => rw [Product.duration, hcode]; rfl
  | ok unit =>
    have hseconds : Product.duration bs unitAt countAt = .ok (bs.wordAt countAt 4 * unit.seconds) := by
      rw [Product.duration, hcode]
      rfl
    have hfits : bs.wordAt countAt 4 * unit.seconds < signedLimit :=
      Nat.lt_trans (Product.duration_lt hseconds) (by decide)
    rw [hseconds]
    simp only [lift_bind, within?_eq hfits]
    rfl

theorem forecast_eq {template needed offset : Nat}
    (hneeded : Product.templateLength? template = some needed) (hlength : needed ≤ bs.length)
    (hoffset : Product.duration bs 17 18 = .ok offset) :
    forecast template offset bs = ofResult (Product.readForecast template bs) := by
  rw [forecast, Product.readForecast, hoffset]
  cases hstart : Product.rangeStart? template with
  | none => rfl
  | some start =>
    have hrange : start + 7 ≤ needed ∧ start + 7 ≤ signedLimit := by
      unfold Product.rangeStart? at hstart
      split at hstart <;> cases hstart <;> cases hneeded <;> decide
    simp only
    rw [duration_eq (by omega) (by omega) hrange.2, ofResult_bind]
    cases hduration : Product.duration bs (start + 2) (start + 3) with
    | error fault => rfl
    | ok range =>
      have hfits : offset + range < signedLimit := by
        have := Product.duration_lt hoffset
        have := Product.duration_lt hduration
        simp only [signedLimit, Nat.pow_eq]
        omega
      simp only [within?_eq hfits, lift_bind]
      rfl

theorem ensemble?_eq {template needed : Nat}
    (hneeded : Product.templateLength? template = some needed) (hlength : needed ≤ bs.length) :
    ensemble? template bs = some (Product.readEnsemble? template bs) := by
  rw [ensemble?, Product.readEnsemble?]
  split
  · next hmember =>
    have hlong : 37 ≤ needed := by
      rcases hmember with rfl | rfl <;> cases hneeded <;> decide
    rw [byte?_eq (by omega), byte?_eq (by omega), byte?_eq (by omega)]
    rfl
  · rfl

theorem surface?_eq (kind scale : UInt8) {scaled : Bytes} (h : scaled.length = 4) :
    surface? kind scale scaled = some (Surface.decode? kind scale scaled) := by
  have hword : word? scaled 0 4 = some scaled.word := by
    rw [word?_eq (by omega) (by decide), Bytes.wordAt, Bytes.slice, List.drop_zero,
      List.take_of_length_le (Nat.le_of_eq h)]
  rw [surface?, Surface.decode?]
  split
  · rfl
  split
  · rfl
  · simp only [signMagnitude?, signMagnitude, h, hword]
    rfl

theorem product_eq :
    product bs = ofResult (Product.read bs) := by
  rw [product, Product.read]
  split
  · rfl
  next hlength =>
  rw [word?_eq (by omega) (by decide), lift_bind]
  dsimp only
  cases hneeded : Product.templateLength? (bs.wordAt 7 2) with
  | none => rfl
  | some needed =>
    dsimp only
    split
    · rfl
    next hlong =>
    rw [Nat.not_lt] at hlong
    have hleast : 34 ≤ needed := by
      unfold Product.templateLength? at hneeded
      split at hneeded <;> cases hneeded <;> decide
    have hbyte {i : Nat} (hi : i < 34) : byte? bs i = some (bs.byteAt i) := byte?_eq (by omega)
    have hscaled : (bs.slice 24 (28 - 24)).length = 4 := by
      rw [Bytes.slice, List.length_take, List.length_drop]
      omega
    simp only [hbyte, Nat.reduceLT, lift_bind, surface?_eq _ _ hscaled, ensemble?_eq hneeded hlong,
      duration_eq (by omega : 17 < bs.length) (by omega : 18 + 4 ≤ bs.length) (by decide),
      range?_eq (by decide : 24 ≤ 28) (by omega : 28 ≤ bs.length), ofResult_bind]
    cases hoffset : Product.duration bs 17 18 with
    | error fault => rw [Product.readForecast, hoffset]; rfl
    | ok offset =>
      simp only [forecast_eq hneeded hlong hoffset, ofResult_bind]
      cases Product.readForecast (bs.wordAt 7 2) bs <;> rfl

end Readers

/-! ### Messages -/

def extent (s : Section) : Extent :=
  ⟨s.number, s.offset, s.bytes.length⟩

section Messages

variable {message : Bytes} {offset : Nat}

theorem isMarked?_eq (short : message.length < signedLimit) (hoffset : offset ≤ message.length) :
    isMarked? message offset =
      some (decide ((message.drop offset).take 4 = Section.endMarker)) := by
  rw [isMarked?, add?_eq (by omega) (by decide)]
  by_cases hstop : offset + 4 ≤ message.length
  · simp only [Option.bind_eq_bind, Option.bind_some, hstop, if_true,
      range?_eq (Nat.le_add_right offset 4) hstop, Nat.add_sub_cancel_left]
    rfl
  · have hnot : (message.drop offset).take 4 ≠ Section.endMarker := fun h => by
      have := congrArg List.length h
      simp only [List.length_take, List.length_drop, Section.endMarker, List.length_cons,
        List.length_nil] at this
      omega
    simp [hstop, hnot]

theorem isMisfit?_eq (short : message.length < signedLimit) (hoffset : offset ≤ message.length)
    {length : Nat} (hlength : length < signedLimit) :
    isMisfit? message offset length =
      some (decide (length < 5 ∨ (message.drop offset).length < length)) := by
  rw [isMisfit?, add?_eq (by omega) hlength]
  split
  · next h => simp [h]
  · next h =>
    simp [h]
    omega

/-- Every turn passes over five bytes at least, so the turns are enough. -/
theorem extents_eq (short : message.length < signedLimit) {turns : Nat}
    (hoffset : offset ≤ message.length) (enough : message.length < offset + 5 * turns) :
    extents message turns offset =
      ofResult ((Section.chain offset (message.drop offset)).map (List.map extent)) := by
  induction turns generalizing offset with
  | zero => omega
  | succ turns ih =>
    have hword : message.wordAt offset 4 < signedLimit :=
      Nat.lt_trans (message.wordAt_lt offset 4) (by decide)
    have hplace : offset < signedLimit := Nat.lt_of_le_of_lt hoffset short
    rw [extents, Section.chain, isMarked?_eq short hoffset, lift_bind]
    simp only [decide_eq_true_eq, Bytes.wordAt_drop, Bytes.byteAt_drop, Nat.add_zero]
    split
    · rfl
    rw [add?_eq hplace (by decide), lift_bind]
    by_cases hhead : message.length < offset + 5
    · rw [if_pos hhead, if_pos (by rw [List.length_drop]; omega)]
      rfl
    rw [if_neg hhead, if_neg (by rw [List.length_drop]; omega), word?_eq (by omega) (by omega),
      lift_bind, add?_eq hplace (by decide), lift_bind, byte?_eq (by omega), lift_bind,
      isMisfit?_eq short hoffset hword, lift_bind]
    simp only [decide_eq_true_eq]
    split
    · rfl
    next hfit =>
    rw [List.length_drop] at hfit
    rw [add?_eq hplace hword, lift_bind, ih (by omega) (by omega), ofResult_bind, List.drop_drop]
    cases Section.chain (offset + message.wordAt offset 4)
      (message.drop (offset + message.wordAt offset 4)) with
    | error fault => rfl
    | ok sections =>
      have hlength : ((message.drop offset).take (message.wordAt offset 4)).length =
          message.wordAt offset 4 := by
        rw [List.length_take, List.length_drop]
        omega
      simp only [Except.map, List.map_cons, extent, hlength]
      rfl

/-- The sections of a message are slices of it. -/
theorem slice_of_walk {sections : List Section} (h : Section.ofMessage message = .ok sections)
    {s : Section} (hs : s ∈ sections) :
    s.offset + s.bytes.length ≤ message.length ∧
      message.slice s.offset s.bytes.length = s.bytes := by
  obtain ⟨stop, tiles⟩ := Section.ofMessage_eq_ok_iff.mp h
  have hstop := (tiles.run.pairwise.1 s hs).2.2
  have hmarked := tiles.marked.le_length
  rw [Section.finish] at hstop
  exact ⟨by omega, tiles.run.slice_eq hs⟩

theorem bytes?_extent (short : message.length < signedLimit) {s : Section}
    (hend : s.offset + s.bytes.length ≤ message.length)
    (hslice : message.slice s.offset s.bytes.length = s.bytes) :
    (extent s).bytes? message = some s.bytes := by
  have hsum : add? s.offset s.bytes.length = some (s.offset + s.bytes.length) :=
    add?_eq (by omega) (by omega)
  simp only [Extent.bytes?, extent, hsum, Option.bind_eq_bind, Option.bind_some,
    range?_eq (Nat.le_add_right _ _) hend, Nat.add_sub_cancel_left, hslice]

variable (file : UInt32) (place : Nat) (indicator : Indicator) (source : Identification)

theorem field_eq (index : Nat) {s : Section} (hbytes : (extent s).bytes? message = some s.bytes) :
    field file place indicator source message index (extent s) =
      ofResult (Message.field file place indicator source index s) := by
  rw [field, hbytes, lift_bind, product_eq, ofResult_bind, Message.field]
  cases Product.read s.bytes <;> rfl

theorem items?_eq {products : List Section}
    (h : ∀ s ∈ products, (extent s).bytes? message = some s.bytes) :
    items? file place indicator source message (products.map extent) =
      some (products.mapIdx (Message.field file place indicator source)) := by
  have hall (k : Nat) : List.Forall₂
      (fun p item => (field file place indicator source message p.2 p.1).run = some item)
      ((products.map extent).zipIdx k)
      ((products.zipIdx k).map fun (s, i) => Message.field file place indicator source i s) := by
    induction products generalizing k with
    | nil => exact .nil
    | cons s products ih =>
      rw [List.forall_mem_cons] at h
      rw [List.map_cons, List.zipIdx_cons, List.zipIdx_cons, List.map_cons]
      exact .cons (congrArg ExceptT.run (field_eq file place indicator source k h.1))
        (ih h.2 (k + 1))
  rw [List.mapIdx_eq_zipIdx_map]
  exact Option.mapM_eq_some_of_forall₂ (hall 0)

/-- A message is read under guard as it is read without. -/
theorem fields_eq (short : message.length < signedLimit) :
    fields file place indicator message =
      ofResult (Message.fields file place indicator message) := by
  rw [fields, Message.fields]
  split
  · rfl
  next hlength =>
  rw [Nat.not_lt] at hlength
  rw [extents_eq short hlength (by omega), ofResult_bind, ← Section.ofMessage]
  cases hwalk : Section.ofMessage message with
  | error fault => rfl
  | ok sections =>
    have hsection {s : Section} (hs : s ∈ sections) :
        (extent s).bytes? message = some s.bytes := by
      obtain ⟨hend, hslice⟩ := slice_of_walk hwalk hs
      exact bytes?_extent short hend hslice
    have hfirst : (sections.map extent).find? (·.number = 1) =
        (sections.find? (·.number = 1)).map extent := List.find?_map ..
    have hproducts : (sections.map extent).filter (·.number = 4) =
        (sections.filter (·.number = 4)).map extent := List.filter_map ..
    have hok {α β : Type} (a : α) (f : α → Except ScanFault β) : (Except.ok a >>= f) = f a := rfl
    simp only [Except.map, hfirst, hproducts, hok, Section.withNumber]
    cases hfind : sections.find? (·.number = 1) with
    | none => rfl
    | some first =>
      have hbytes := hsection (List.mem_of_find?_eq_some hfind)
      simp only [Option.map_some, hbytes, lift_bind, identification_eq, ofResult_bind, hok]
      cases Identification.read first.bytes with
      | error fault => rfl
      | ok source =>
        have hitems := items?_eq file place indicator source
          fun s hs => hsection (List.mem_of_mem_filter (p := (·.number = 4)) hs)
        simp only [hitems, lift_bind, hok]
        cases sections.filter (·.number = 4) with
        | nil => rfl
        | cons s rest =>
          rw [if_neg (by simp)]
          rfl

end Messages

end Guarded

end GribCatalog
