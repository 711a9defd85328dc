import GribCatalog.Grib.Dimension
import GribCatalog.Proofs.ValueText

/-! Names of dimensions that are read, written and read again. What is written for a dimension is
read as the dimension, except for levels of every type in descending order: no level type is written
for them, so that `desc` comes where a level type is read. -/

namespace GribCatalog

/-! ### Text in lower case already -/

namespace Text

variable {sep : Char} {cs : List Char}

theorem pieces_of_not_mem (h : sep ∉ cs) : pieces sep cs = [cs] := by
  induction cs with
  | nil => rfl
  | cons c cs ih =>
    rw [List.mem_cons, not_or] at h
    rw [pieces, if_neg (Ne.symm h.1), ih h.2]

theorem pieces_append (h : sep ∉ cs) (rest : List Char) :
    pieces sep (cs ++ sep :: rest) = cs :: pieces sep rest := by
  induction cs with
  | nil => simp [pieces]
  | cons c cs ih =>
    rw [List.mem_cons, not_or] at h
    rw [List.cons_append, pieces, if_neg (Ne.symm h.1), ih h.2]

/-- A character that neither trimming nor lower case changes. -/
def isSettled (c : Char) : Bool :=
  c.toNat < 128 && c.toLower = c && !isBlank c

theorem isSettled_of_isDigit {c : Char} (h : c.isDigit = true) : isSettled c = true := by
  obtain ⟨hlow, hhigh⟩ := toNat_of_isDigit h
  have hlower : c.toLower = c := dif_neg fun hupper => by
    have hcapital : 'A'.toNat ≤ c.toNat := UInt32.le_iff_toNat_le.mp hupper.1
    have hfirst : 'A'.toNat = 65 := rfl
    omega
  simp only [isSettled, hlower, isBlank_of_isDigit h, Bool.not_false, Bool.and_true, decide_true,
    decide_eq_true_eq]
  omega

theorem lowerFrom_of_isSettled (h : ∀ c ∈ cs, isSettled c = true) (before : List Char) :
    lowerFrom before cs = cs := by
  induction cs generalizing before with
  | nil => rfl
  | cons c cs ih =>
    rw [List.forall_mem_cons] at h
    obtain ⟨hc, hcs⟩ := h
    simp only [isSettled, Bool.and_eq_true, decide_eq_true_eq] at hc
    obtain ⟨⟨hascii, hlower⟩, -⟩ := hc
    rw [lowerFrom, if_neg (by omega), if_neg (by omega), lowerChar, if_pos hascii, hlower, ih hcs,
      List.singleton_append]

theorem lower_trim_of_isSettled (h : ∀ c ∈ cs, isSettled c = true) : lower (trim cs) = cs := by
  have hblank : ∀ c ∈ cs, isBlank c = false := by
    intro c hc
    have hsettled := h c hc
    simp only [isSettled, Bool.and_eq_true, Bool.not_eq_true'] at hsettled
    exact hsettled.2
  rw [trim_of_not_blank hblank, lower, lowerFrom_of_isSettled h]

end Text

namespace FieldDimension

/-! ### Names of levels -/

def parts (name : String) : List (List Char) :=
  Text.pieces ':' (Text.lower (Text.trim name.toList))

def isDescendingFlag (cs : List Char) : Bool :=
  String.ofList cs = "desc" || String.ofList cs = "descending"

variable {name : String}

theorem ofName_eq_ok_vertical_iff {kind : Option UInt8} {descending : Bool} :
    ofName name = .ok (vertical kind descending) ↔
      ∃ word rest, parts name = word :: rest ∧
        (String.ofList word = "vertical" ∨ String.ofList word = "level") ∧
        levelPart rest[0]? = .ok kind ∧ rest[1]?.any isDescendingFlag = descending := by
  have htyped (part : Option (List Char)) (flag : Bool) :
      (levelPart part).map (fun kind => vertical kind flag) = .ok (vertical kind descending) ↔
        levelPart part = .ok kind ∧ flag = descending := by
    cases levelPart part <;> simp [Except.map]
  have hunit (part : Option (List Char)) (f : TimeUnit → FieldDimension)
      (hf : ∀ unit, f unit ≠ vertical kind descending) :
      (unitPart part).map f ≠ .ok (vertical kind descending) := by
    cases unitPart part <;> simp [Except.map, hf]
  rw [ofName, parts]
  cases Text.pieces ':' (Text.lower (Text.trim name.toList)) with
  | nil => simp
  | cons word rest =>
    simp only [List.headD_cons, List.cons.injEq, existsAndEq, true_and]
    split
    case h_1 h | h_2 h | h_3 h => simp [h, hunit]
    -- the parts after the word are the level type and the flag
    case h_6 h | h_7 h =>
      refine (htyped rest[0]? _).trans ?_
      simp only [h, true_or, or_true, true_and, String.reduceEq]
      rfl
    case h_4 h | h_5 h | h_8 h | h_9 h => simp [h]
    case h_10 hvertical hlevel _ _ =>
      refine iff_of_false (by simp) ?_
      rintro ⟨h | h, -⟩
      · exact hvertical h
      · exact hlevel h

theorem levelPart_digits (k : UInt8) : levelPart (some (Text.digits k.toNat)) = .ok (some k) := by
  obtain ⟨d, ds, hds, hd⟩ := Text.head_digits k.toNat
  have hany : String.ofList (Text.digits k.toNat) ≠ "any" := by
    rw [hds]
    intro h
    obtain ⟨rfl, -⟩ := List.cons.inj (String.ofList_injective (h.trans String.ofList_toList.symm))
    cases hd
  simp only [levelPart, Text.digits_ne_nil, hany, decide_false, Bool.or_self, Bool.false_eq_true,
    if_false]
  rw [Text.unsigned?_digits k.toNat_lt]
  simp

theorem levelPart_eq_ok_none_iff {part : Option (List Char)} :
    levelPart part = .ok none ↔ ∀ cs ∈ part, String.ofList cs = "" ∨ String.ofList cs = "any" := by
  cases part with
  | none => simp [levelPart]
  | some cs =>
    simp only [levelPart, Option.mem_def, Option.some.injEq, forall_eq']
    split
    · next h => simpa using h
    · next h =>
      refine iff_of_false ?_ (by simpa using h)
      split <;> simp

/-- Whether a name is one of levels of every type in descending order. Parts after the flag do not
matter. -/
def isUntypedDescending (name : String) : Bool :=
  match (parts name).map String.ofList with
  | word :: level :: flag :: _ =>
    (word = "vertical" || word = "level") && (level = "" || level = "any") &&
      (flag = "desc" || flag = "descending")
  | _ => false

theorem ofName_eq_ok_untyped_iff :
    ofName name = .ok (vertical none true) ↔ isUntypedDescending name = true := by
  rw [ofName_eq_ok_vertical_iff, isUntypedDescending]
  cases parts name with
  | nil => simp
  | cons word rest =>
    simp only [List.cons.injEq, existsAndEq, true_and, List.map_cons]
    cases rest with
    | nil => simp
    | cons level rest =>
      cases rest with
      | nil => simp
      | cons flag rest => simp [levelPart_eq_ok_none_iff, isDescendingFlag, and_assoc]

/-! ### Reading what is written -/

theorem parts_vertical (k : UInt8) (descending : Bool) :
    parts (vertical (some k) descending).name =
      "vertical".toList :: Text.digits k.toNat :: if descending then ["desc".toList] else [] := by
  have hwritten : (vertical (some k) descending).name.toList = "vertical".toList ++
      ':' :: (Text.digits k.toNat ++ if descending then ":desc".toList else []) := by
    cases descending <;> simp [FieldDimension.name, Text.digits, toString]
  have hsettled : ∀ c ∈ (vertical (some k) descending).name.toList, Text.isSettled c = true := by
    rw [hwritten]
    simp only [List.forall_mem_append, List.forall_mem_cons]
    refine ⟨List.all_eq_true.mp rfl, rfl, ?_, ?_⟩
    · exact fun c hc => Text.isSettled_of_isDigit (Text.isDigit_of_mem_digits hc)
    · cases descending <;> exact List.all_eq_true.mp rfl
  have hcolon : ':' ∉ Text.digits k.toNat := AxisValue.not_mem_digits rfl _
  rw [parts, Text.lower_trim_of_isSettled hsettled, hwritten, Text.pieces_append (by decide)]
  cases descending with
  | false => simp [Text.pieces_of_not_mem hcolon]
  | true => exact congrArg _ (Text.pieces_append hcolon _)

theorem ofName_name (d : FieldDimension) :
    ofName d.name = if d = vertical none true then .error (.levelType "desc") else .ok d := by
  cases d with
  | time unit => cases unit <;> decide +kernel
  | interval unit => cases unit <;> decide +kernel
  | runtime => decide +kernel
  | ensemble => decide +kernel
  | vertical kind descending =>
    cases kind with
    | none => cases descending <;> decide +kernel
    | some k =>
      have htyped : vertical (some k) descending ≠ vertical none true := by simp
      rw [if_neg htyped, ofName_eq_ok_vertical_iff]
      refine ⟨_, _, parts_vertical k descending, .inl rfl, levelPart_digits k, ?_⟩
      cases descending <;> rfl

/-- Reading what is written for a name that is read gives what the name is read as. The names of
levels of every type in descending order are the ones that this does not hold of, and what is
written for them is refused. -/
theorem ofName_name_of_ofName (name : String) :
    ((ofName name).bind fun d => ofName d.name) =
      (if isUntypedDescending name then .error (.levelType "desc") else ofName name) ∧
    (ofName name = .ok (vertical none true) ↔ isUntypedDescending name = true) := by
  refine ⟨?_, ofName_eq_ok_untyped_iff⟩
  cases hread : ofName name with
  | error fault =>
    have hother : ¬ isUntypedDescending name = true := by
      rw [← ofName_eq_ok_untyped_iff, hread]
      simp
    rw [if_neg hother]
    rfl
  | ok d =>
    have hlost : isUntypedDescending name = true ↔ d = vertical none true := by
      rw [← ofName_eq_ok_untyped_iff, hread, Except.ok.injEq]
    simp only [hlost, Except.bind]
    exact ofName_name d

example : ofName " LEVEL:+007:Descending:x" = .ok (vertical (some 7) true) ∧
    (vertical (some 7) true).name = "vertical:7:desc" := by
  decide +kernel

/-- A level type that is left empty. -/
theorem ofName_name_untyped_descending :
    ofName "vertical::desc" = .ok (vertical none true) ∧
      (vertical none true).name = "vertical:desc" ∧
      ofName "vertical:desc" = .error (.levelType "desc") := by
  decide +kernel

end FieldDimension

end GribCatalog
