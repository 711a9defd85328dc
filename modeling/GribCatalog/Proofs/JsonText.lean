import GribCatalog.Json.Printer
import GribCatalog.Json.Reader
import GribCatalog.Proofs.Decimal
import Mathlib.Data.List.DropRight

/-! JSON texts that are written and read. A tree of readable strings and of numerals is
read back from its text, whatever its depth and on however many lines it is written. -/

namespace GribCatalog.Json

/-! ### Strings -/

theorem unit?_hexChar {n : Nat} (h : n < 32) :
    unit? '0' '0' (hexChar (n / 16)) (hexChar (n % 16)) = some n := by
  have : ∀ n < 32, unit? '0' '0' (hexChar (n / 16)) (hexChar (n % 16)) = some n := by decide
  exact this n h

theorem stringFrom?_escapeChar (whole : Bool) (acc : List Char) (c : Char) (rest : List Char) :
    stringFrom? whole acc (escapeChar c ++ rest) = stringFrom? whole (c :: acc) rest := by
  unfold escapeChar
  iterate 5
    split
    · next h =>
      subst h
      simp [stringFrom?, escape?]
  split
  · next h =>
    have : c = Char.ofNat 8 := h ▸ (Char.ofNat_toNat c).symm
    simp [stringFrom?, escape?, this]
  split
  · next h =>
    have : c = Char.ofNat 12 := h ▸ (Char.ofNat_toNat c).symm
    simp [stringFrom?, escape?, this]
  split
  · next h =>
    have hleading : isLeading c.toNat = false := by simp [isLeading]; omega
    have htrailing : isTrailing c.toNat = false := by simp [isTrailing]; omega
    simp [stringFrom?, unit?_hexChar h, hleading, htrailing, Char.ofNat_toNat]
  · next hquote hslash _ _ _ _ _ hcontrol =>
    rw [List.singleton_append, stringFrom?.eq_def]
    split <;> simp_all

theorem stringFrom?_escaped (acc cs rest : List Char) :
    stringFrom? true acc (cs.flatMap escapeChar ++ '"' :: rest) =
      some (some (String.ofList (acc.reverse ++ cs)), rest) := by
  induction cs generalizing acc with
  | nil => simp [stringFrom?]
  | cons c cs ih =>
    rw [List.flatMap_cons, List.append_assoc, stringFrom?_escapeChar, ih]
    simp

/-! ### Numerals -/

/-- A text that a sign and a sound layout make. -/
def IsNumeral (cs : List Char) : Prop :=
  ∃ (sign : List Char) (l : Binary64.Layout) (c : Nat) (e : Int),
    (sign = [] ∨ sign = ['-']) ∧ l.Shows c e ∧ cs = sign ++ l.chars

/-- What follows a numeral does not go on with it. -/
def EndsNumeral (rest : List Char) : Prop :=
  ∀ c ∈ rest.head?, c.isDigit = false ∧ c ≠ '.' ∧ c ≠ 'e' ∧ c ≠ 'E'

section Numerals

open Binary64 (Layout)

variable {l : Layout} {c : Nat} {e : Int} {rest : List Char}

theorem exponentPart?_chars (hrest : EndsNumeral rest) (exponent : Option Int) :
    exponentPart? (Layout.exponentChars exponent ++ rest) =
      some (Layout.exponentChars exponent, rest) := by
  cases exponent with
  | none =>
    cases rest with
    | nil => rfl
    | cons d rest =>
      obtain ⟨-, -, he, hE⟩ := hrest d rfl
      simp [Layout.exponentChars, exponentPart?, he, hE]
  | some e =>
    have hdigits : ∀ d ∈ Text.digits e.natAbs, d.isDigit = true :=
      fun d => Text.isDigit_of_mem_digits
    have hhead : ∀ d ∈ rest.head?, d.isDigit = false := fun d hd => (hrest d hd).1
    rw [Layout.exponentChars]
    split <;>
      simp [exponentPart?, Text.takeWhile_append hdigits hhead,
        Text.dropWhile_append hdigits hhead, Text.digits_ne_nil]

theorem fractionPart?_chars {fraction : List Char} (hdigits : ∀ d ∈ fraction, d.isDigit = true)
    (hrest : ∀ d ∈ rest.head?, d.isDigit = false ∧ d ≠ '.') :
    fractionPart? (Layout.fractionChars fraction ++ rest) =
      some (Layout.fractionChars fraction, rest) := by
  have hhead : ∀ d ∈ rest.head?, d.isDigit = false := fun d hd => (hrest d hd).1
  cases fraction with
  | nil =>
    cases rest with
    | nil => rfl
    | cons d rest =>
      rw [Layout.fractionChars, List.nil_append]
      unfold fractionPart?
      split
      · next heq => exact absurd (List.cons.inj heq).1 (hrest d rfl).2
      · rfl
  | cons d ds =>
    simp only [Layout.fractionChars, List.cons_append, fractionPart?]
    rw [← List.cons_append, Text.takeWhile_append hdigits hhead,
      Text.dropWhile_append hdigits hhead, if_neg (List.cons_ne_nil d ds)]

theorem wholePart?_chars (h : l.Shows c e) (hrest : ∀ d ∈ rest.head?, d.isDigit = false) :
    wholePart? (l.whole ++ rest) = some (l.whole, rest) := by
  rcases h.leading with hwhole | ⟨hdigits, d, ds, hwhole, hd⟩
  · rw [hwhole]
    rfl
  · have htake := Text.takeWhile_append hdigits hrest
    have hdrop := Text.dropWhile_append hdigits hrest
    rw [hwhole] at htake hdrop ⊢
    unfold wholePart?
    split
    · next heq => exact absurd (List.cons.inj heq).1 hd
    · simp only [htake, hdrop, if_neg (List.cons_ne_nil d ds)]

theorem head_exponentChars_append (hrest : EndsNumeral rest) (exponent : Option Int) :
    ∀ d ∈ (Layout.exponentChars exponent ++ rest).head?, d.isDigit = false ∧ d ≠ '.' := by
  cases exponent with
  | none => exact fun d hd => ⟨(hrest d hd).1, (hrest d hd).2.1⟩
  | some e =>
    rintro d ⟨⟩
    decide

theorem head_fractionChars_append {cs : List Char}
    (hcs : ∀ d ∈ cs.head?, d.isDigit = false ∧ d ≠ '.') (fraction : List Char) :
    ∀ d ∈ (Layout.fractionChars fraction ++ cs).head?, d.isDigit = false := by
  cases fraction with
  | nil => exact fun d hd => (hcs d hd).1
  | cons d ds =>
    rintro d ⟨⟩
    decide

theorem numeral?_append {cs : List Char} (h : IsNumeral cs) (hrest : EndsNumeral rest) :
    numeral? (cs ++ rest) = some (String.ofList cs, rest) := by
  obtain ⟨sign, l, c, e, hsign, hshows, rfl⟩ := h
  have hexponent := head_exponentChars_append hrest l.exponent
  have hfraction := head_fractionChars_append hexponent l.fraction
  have hunsigned := wholePart?_chars hshows hfraction
  have hread : numeral? (sign ++ (l.whole ++ (Layout.fractionChars l.fraction ++
      (Layout.exponentChars l.exponent ++ rest)))) =
        some (String.ofList (sign ++ l.whole ++ Layout.fractionChars l.fraction ++
          Layout.exponentChars l.exponent), rest) := by
    have hfraction? := fractionPart?_chars hshows.fraction hexponent
    have hexponent? := exponentPart?_chars hrest l.exponent
    rcases hsign with rfl | rfl
    · rw [List.nil_append, numeral?]
      · simp only [hunsigned, hfraction?, hexponent?, Option.bind_eq_bind, Option.bind_some]
      · obtain ⟨d, ds, hwhole, hd⟩ := hshows.head_whole
        rintro cs heq
        rw [hwhole] at heq
        obtain ⟨rfl, -⟩ := List.cons.inj heq
        cases hd
    · rw [List.singleton_append, numeral?]
      simp only [hunsigned, hfraction?, hexponent?, Option.bind_eq_bind, Option.bind_some]
  simpa [Layout.chars] using hread

theorem isNumeral_digits {sign : List Char} (hsign : sign = [] ∨ sign = ['-']) (n : Nat) :
    IsNumeral (sign ++ Text.digits n) := by
  refine ⟨sign, ⟨Text.digits n, [], none⟩, n, 0, hsign, ⟨?_, ?_, nofun, 0, ?_, rfl⟩, ?_⟩
  · exact fun d => Text.isDigit_of_mem_digits
  · rcases Nat.eq_zero_or_pos n with rfl | hn
    · exact .inl rfl
    · exact .inr ⟨fun d => Text.isDigit_of_mem_digits, Text.exists_digits_eq_cons hn⟩
  · rw [Layout.coefficient, List.append_nil, Text.ofDigitChars_digits, Nat.pow_zero, Nat.mul_one]
  · simp [Layout.chars, Layout.fractionChars, Layout.exponentChars]

theorem isNumeral_integerDigits (n : Int) : IsNumeral (Text.integerDigits n) := by
  rw [Text.integerDigits]
  split
  · exact isNumeral_digits (.inr rfl) _
  · exact isNumeral_digits (.inl rfl) _

theorem isNumeral_text {style : Binary64.Style}
    (hstyle : style.whole = [] ∨ style.whole = ['.', '0']) {x : Binary64}
    (h : x.isFinite = true) : IsNumeral (x.text style) := by
  have hlt : x.magnitude < Binary64.infinite := of_decide_eq_true h
  have hnumber : ¬ x.isNaN = true := by
    rw [Binary64.isNaN, decide_eq_true_iff]
    omega
  have hfinite : ¬ x.isInfinite = true := by
    rw [Binary64.isInfinite, decide_eq_true_iff]
    omega
  obtain ⟨l, c, e, hchars, hshows, -⟩ := Binary64.magnitudeText_shows hstyle hlt
  simp only [Binary64.text, if_neg hnumber, if_neg hfinite, hchars]
  split
  · exact ⟨['-'], l, c, e, .inr rfl, hshows, rfl⟩
  · exact ⟨[], l, c, e, .inl rfl, hshows, rfl⟩

end Numerals

/-! ### Trees -/

inductive Readable : Json → Prop
  | null : Readable null
  | bool (b : Bool) : Readable (bool b)
  | number {n : String} : IsNumeral n.toList → Readable (number n)
  | string (s : String) : Readable (string (some s))
  | array {items : List Json} : (∀ item ∈ items, Readable item) → Readable (array items)
  | object {members : List (String × Json)} :
    (∀ member ∈ members, Readable member.2) → Readable (ofMembers members)

theorem skipSpace_newLine (level : Nat) (cs : List Char) :
    skipSpace (newLine level ++ cs) = skipSpace cs := by
  refine List.dropWhile_append_of_pos fun c hc => ?_
  rcases List.mem_cons.mp hc with rfl | hc
  · rfl
  · rw [(List.mem_replicate.mp hc).2]
    rfl

theorem skipSpace_cons {c : Char} (h : isSpace c = false) (cs : List Char) :
    skipSpace (c :: cs) = c :: cs := by
  simp [skipSpace, h]

theorem value?_newLine (fuel level : Nat) (cs : List Char) :
    value? fuel (newLine level ++ cs) = value? fuel cs := by
  cases fuel with
  | zero => rfl
  | succ fuel => simp only [value?, skipSpace_newLine]

theorem endsNumeral_newLine (level : Nat) (cs : List Char) :
    EndsNumeral (newLine level ++ cs) := by
  rintro c ⟨⟩
  decide

theorem endsNumeral_comma (cs : List Char) : EndsNumeral (',' :: cs) := by
  rintro c ⟨⟩
  decide

/-- Whether a tree is read from its text, with fuel for two steps for every character. -/
def ReadsBack (j : Json) : Prop :=
  ∀ (level fuel : Nat) (rest : List Char), EndsNumeral rest →
    2 * (j.prettyChars level).length ≤ fuel →
      value? fuel (j.prettyChars level ++ rest) = some (j, rest)

theorem items?_prettyItems {item : Json} {items : List Json} (hitem : ReadsBack item)
    (h : ∀ item ∈ items, ReadsBack item) (level outer : Nat) {fuel : Nat} (rest : List Char)
    (hfuel : 2 * (prettyItems level (item :: items)).length ≤ fuel) :
    items? fuel (prettyItems level (item :: items) ++ (newLine outer ++ ']' :: rest)) =
      some (item :: items, rest) := by
  induction items generalizing item fuel with
  | nil =>
    rw [prettyItems] at hfuel ⊢
    obtain ⟨fuel, rfl⟩ : ∃ f, fuel = f + 1 := ⟨fuel - 1, by simp [newLine] at hfuel; omega⟩
    rw [List.length_append] at hfuel
    rw [items?, List.append_assoc, value?_newLine,
      hitem level fuel _ (endsNumeral_newLine outer _) (by simp [newLine] at hfuel; omega)]
    simp only [skipSpace_newLine, skipSpace_cons (show isSpace ']' = false by decide)]
  | cons next items ih =>
    rw [List.forall_mem_cons] at h
    rw [prettyItems] at hfuel ⊢
    obtain ⟨fuel, rfl⟩ : ∃ f, fuel = f + 1 := ⟨fuel - 1, by simp [newLine] at hfuel; omega⟩
    simp only [List.length_append, List.length_cons] at hfuel
    rw [items?, List.append_assoc, List.append_assoc, value?_newLine, List.cons_append,
      hitem level fuel _ (endsNumeral_comma _) (by simp [newLine] at hfuel; omega)]
    simp only [skipSpace_cons (show isSpace ',' = false by decide)]
    rw [ih h.1 h.2 (by omega)]
    rfl

theorem value?_space (fuel : Nat) (cs : List Char) : value? fuel (' ' :: cs) = value? fuel cs := by
  cases fuel with
  | zero => rfl
  | succ fuel =>
    have : skipSpace (' ' :: cs) = skipSpace cs := rfl
    simp only [value?, this]

theorem stringFrom?_quoted (s : String) (rest : List Char) :
    stringFrom? true [] (s.toList.flatMap escapeChar ++ '"' :: rest) = some (some s, rest) := by
  rw [stringFrom?_escaped, List.reverse_nil, List.nil_append, String.ofList_toList]

theorem quoted_some (s : String) :
    quoted (some s) = '"' :: s.toList.flatMap escapeChar ++ ['"'] := rfl

def named (members : List (String × Json)) : List (Option String × Json) :=
  members.map fun (name, value) => (some name, value)

section Members

/- A member's name, a colon, its value, and what comes after them. -/
variable {fuel : Nat} {cs inner after value rest others : List Char} {name : Option String}
  {j : Json} (hquote : skipSpace cs = '"' :: inner)
  (hname : stringFrom? true [] inner = some (name, after))
  (hcolon : skipSpace after = ':' :: value) (hvalue : value? fuel value = some (j, rest))
include hquote hname hcolon hvalue

theorem members?_last (hclose : skipSpace rest = '}' :: others) :
    members? (fuel + 1) cs = some ([(name, j)], others) := by
  simp only [members?, hquote, hname, hcolon, hvalue, hclose]

theorem members?_more (hcomma : skipSpace rest = ',' :: others) :
    members? (fuel + 1) cs =
      (members? fuel others).map fun (members, cs) => ((name, j) :: members, cs) := by
  simp only [members?, hquote, hname, hcolon, hvalue, hcomma]

end Members

theorem members?_prettyMembers {name : String} {value : Json} {members : List (String × Json)}
    (hvalue : ReadsBack value) (h : ∀ member ∈ members, ReadsBack member.2) (level outer : Nat)
    {fuel : Nat} (rest : List Char)
    (hfuel : 2 * (prettyMembers level (named ((name, value) :: members))).length ≤ fuel) :
    members? fuel (prettyMembers level (named ((name, value) :: members)) ++
      (newLine outer ++ '}' :: rest)) = some (named ((name, value) :: members), rest) := by
  have hquote (cs : List Char) : skipSpace (newLine level ++ '"' :: cs) = '"' :: cs := by
    rw [skipSpace_newLine, skipSpace_cons (by decide)]
  have hcolon (cs : List Char) : skipSpace (':' :: cs) = ':' :: cs := skipSpace_cons (by decide) cs
  induction members generalizing name value fuel with
  | nil =>
    simp only [named, List.map_cons, List.map_nil, prettyMembers, quoted_some, List.length_append,
      List.length_cons, List.append_assoc, List.cons_append, List.nil_append] at hfuel ⊢
    obtain ⟨fuel, rfl⟩ : ∃ f, fuel = f + 1 := ⟨fuel - 1, by omega⟩
    have hread := hvalue level fuel _ (endsNumeral_newLine outer ('}' :: rest)) (by omega)
    exact members?_last (hquote _) (stringFrom?_quoted name _) (hcolon _)
      ((value?_space fuel _).trans hread) (by rw [skipSpace_newLine, skipSpace_cons (by decide)])
  | cons next members ih =>
    rw [List.forall_mem_cons] at h
    obtain ⟨name', value'⟩ := next
    have hrest := @ih name' value' h.1 h.2 (fuel - 1)
    simp only [named, List.map_cons, prettyMembers, quoted_some, List.length_append,
      List.length_cons, List.append_assoc, List.cons_append, List.nil_append] at hfuel hrest ⊢
    obtain ⟨fuel, rfl⟩ : ∃ f, fuel = f + 1 := ⟨fuel - 1, by omega⟩
    have hread := hvalue level fuel _ (endsNumeral_comma (prettyMembers level
      ((some name', value') :: members.map fun (name, value) => (some name, value)) ++
        (newLine outer ++ '}' :: rest))) (by omega)
    rw [members?_more (hquote _) (stringFrom?_quoted name _) (hcolon _)
      ((value?_space fuel _).trans hread) (skipSpace_cons (by decide) _)]
    exact congrArg (Option.map _) (hrest (by omega))

theorem skipSpace_skipSpace (cs : List Char) : skipSpace (skipSpace cs) = skipSpace cs :=
  List.dropWhile_idempotent _ cs

theorem value?_skipSpace (fuel : Nat) (cs : List Char) :
    value? fuel (skipSpace cs) = value? fuel cs := by
  cases fuel with
  | zero => rfl
  | succ fuel => simp only [value?, skipSpace_skipSpace]

theorem items?_skipSpace (fuel : Nat) (cs : List Char) :
    items? fuel (skipSpace cs) = items? fuel cs := by
  cases fuel with
  | zero => rfl
  | succ fuel => simp only [items?, value?_skipSpace]

theorem members?_skipSpace (fuel : Nat) (cs : List Char) :
    members? fuel (skipSpace cs) = members? fuel cs := by
  cases fuel with
  | zero => rfl
  | succ fuel => simp only [members?, skipSpace_skipSpace]

/-- No value starts with a closing bracket. -/
theorem items?_closing {fuel : Nat} {cs rest : List Char} (h : skipSpace cs = ']' :: rest) :
    items? fuel cs = none := by
  have hvalue (fuel : Nat) : value? fuel cs = none := by
    cases fuel with
    | zero => rfl
    | succ fuel =>
      simp only [value?, h]
      rfl
  cases fuel with
  | zero => rfl
  | succ fuel => simp only [items?, hvalue]

theorem value?_array {fuel : Nat} {cs rest : List Char} {items : List Json}
    (h : items? fuel cs = some (items, rest)) :
    value? (fuel + 1) ('[' :: cs) = some (array items, rest) := by
  simp only [value?, skipSpace_cons (show isSpace '[' = false by decide)]
  split
  · next hclosing =>
    rw [items?_closing hclosing] at h
    cases h
  · rw [items?_skipSpace, h]
    rfl

theorem value?_object {fuel : Nat} {cs rest : List Char} {members : List (Option String × Json)}
    (h : members? fuel cs = some (members, rest)) :
    value? (fuel + 1) ('{' :: cs) = some (object members, rest) := by
  simp only [value?, skipSpace_cons (show isSpace '{' = false by decide)]
  split
  · next hclosing =>
    cases fuel with
    | zero => cases h
    | succ fuel =>
      simp only [members?, hclosing] at h
      cases h
  · rw [members?_skipSpace, h]
    rfl

theorem IsNumeral.eq_cons {cs : List Char} (h : IsNumeral cs) :
    ∃ d ds, cs = d :: ds ∧ (d.isDigit = true ∨ d = '-') := by
  obtain ⟨sign, l, c, e, rfl | rfl, hshows, rfl⟩ := h
  · obtain ⟨d, ds, hwhole, hd⟩ := hshows.head_whole
    rw [List.nil_append, Binary64.Layout.chars, hwhole]
    exact ⟨d, _, rfl, .inl hd⟩
  · exact ⟨'-', _, rfl, .inr rfl⟩

theorem value?_number {fuel : Nat} {n : String} {rest : List Char} (h : IsNumeral n.toList)
    (hrest : EndsNumeral rest) :
    value? (fuel + 1) (n.toList ++ rest) = some (number n, rest) := by
  have hread := numeral?_append h hrest
  rw [String.ofList_toList] at hread
  obtain ⟨d, ds, hn, hd⟩ := h.eq_cons
  have hne : d ∉ ['n', 't', 'f', '"', '[', '{', ' ', '\n', '\t', '\r'] := by
    rcases hd with hd | rfl
    · intro hmem
      rw [show d.isDigit = false from Text.eq_false_of_all_not rfl hmem] at hd
      cases hd
    · decide
  have hspace : isSpace d = false := by simp_all [isSpace]
  rw [hn] at hread ⊢
  simp only [List.cons_append, value?, skipSpace_cons hspace] at hread ⊢
  split
  case h_7 =>
    rw [hread]
    rfl
  all_goals
    next heq =>
      obtain ⟨rfl, -⟩ := List.cons.inj heq
      simp at hne

theorem Readable.prettyChars_ne_nil {j : Json} (h : j.Readable) (level : Nat) :
    j.prettyChars level ≠ [] := by
  cases h with
  | null => simp [prettyChars]
  | bool b => cases b <;> simp [prettyChars]
  | number h =>
    obtain ⟨d, ds, hn, -⟩ := h.eq_cons
    simp [prettyChars, hn]
  | string s => simp [prettyChars, quoted_some]
  | @array items h => cases items <;> simp [prettyChars]
  | @object members h => cases members <;> simp [prettyChars, ofMembers]

theorem ReadsBack.of_succ {j : Json} (h : j.Readable)
    (hstep : ∀ (level fuel : Nat) (rest : List Char), EndsNumeral rest →
      2 * (j.prettyChars level).length ≤ fuel + 1 →
        value? (fuel + 1) (j.prettyChars level ++ rest) = some (j, rest)) : j.ReadsBack := by
  intro level fuel rest hrest hfuel
  have := List.length_pos_iff.mpr (h.prettyChars_ne_nil level)
  obtain ⟨fuel, rfl⟩ : ∃ f, fuel = f + 1 := ⟨fuel - 1, by omega⟩
  exact hstep level fuel rest hrest hfuel

/-- A readable tree is read from its text, whatever comes after it. -/
theorem Readable.readsBack {j : Json} (h : j.Readable) : j.ReadsBack := by
  induction h with
  | null =>
    refine .of_succ .null fun level fuel rest _ _ => ?_
    simp [prettyChars, value?, skipSpace, isSpace]
  | bool b =>
    refine .of_succ (.bool b) fun level fuel rest _ _ => ?_
    cases b <;> simp [prettyChars, value?, skipSpace, isSpace]
  | number h =>
    refine .of_succ (.number h) fun level fuel rest hrest _ => ?_
    simp only [prettyChars]
    exact value?_number h hrest
  | string s =>
    refine .of_succ (.string s) fun level fuel rest _ _ => ?_
    simp only [prettyChars, quoted_some, List.append_assoc, List.cons_append, List.nil_append,
      value?, skipSpace_cons (show isSpace '"' = false by decide), stringFrom?_quoted]
    rfl
  | @array items h ih =>
    refine .of_succ (.array h) fun level fuel rest _ hfuel => ?_
    cases items with
    | nil => simp [prettyChars, value?, skipSpace, isSpace]
    | cons item items =>
      rw [List.forall_mem_cons] at ih
      simp only [prettyChars, List.cons_append, List.append_assoc, List.nil_append,
        List.length_cons, List.length_append] at hfuel ⊢
      exact value?_array (items?_prettyItems ih.1 ih.2 (level + 1) level rest (by omega))
  | @object members h ih =>
    refine .of_succ (.object h) fun level fuel rest _ hfuel => ?_
    cases members with
    | nil => simp [prettyChars, ofMembers, value?, skipSpace, isSpace]
    | cons member members =>
      rw [List.forall_mem_cons] at ih
      simp only [ofMembers, List.map_cons, prettyChars, List.cons_append, List.append_assoc,
        List.nil_append, List.length_cons, List.length_append] at hfuel ⊢
      exact value?_object (members?_prettyMembers ih.1 ih.2 (level + 1) level rest (by
        simp only [named, List.map_cons]; omega))

theorem Readable.parse?_pretty {j : Json} (h : j.Readable) : parse? j.pretty = some j := by
  have hread := h.readsBack 0 (2 * (j.prettyChars 0).length + 2) [] nofun (Nat.le_add_right _ 2)
  rw [List.append_nil] at hread
  rw [parse?, pretty, String.toList_ofList, ofChars?, hread]
  rfl

end GribCatalog.Json
