import GribCatalog.Json.Basic

/-!
Reading JSON texts. Nothing but blanks may follow the value.
-/

namespace GribCatalog.Json

def isSpace (c : Char) : Bool :=
  c = ' ' || c = '\n' || c = '\t' || c = '\r'

def skipSpace (cs : List Char) : List Char :=
  cs.dropWhile isSpace

def hexDigit? (c : Char) : Option Nat :=
  if c.isDigit then some (c.toNat - 48)
  else if 'a' ≤ c ∧ c ≤ 'f' then some (c.toNat - 87)
  else if 'A' ≤ c ∧ c ≤ 'F' then some (c.toNat - 55)
  else none

def unit? (a b c d : Char) : Option Nat := do
  let a ← hexDigit? a
  let b ← hexDigit? b
  let c ← hexDigit? c
  let d ← hexDigit? d
  some (((a * 16 + b) * 16 + c) * 16 + d)

def isLeading (n : Nat) : Bool :=
  0xD800 ≤ n && n < 0xDC00

def isTrailing (n : Nat) : Bool :=
  0xDC00 ≤ n && n < 0xE000

def escape? : Char → Option Char
  | '"' => some '"'
  | '\\' => some '\\'
  | '/' => some '/'
  | 'b' => some (Char.ofNat 8)
  | 'f' => some (Char.ofNat 12)
  | 'n' => some '\n'
  | 'r' => some '\r'
  | 't' => some '\t'
  | _ => none

/-- The low half of a character, if an escape for one comes first, and the text after it. -/
def trailing? : List Char → Option (Nat × List Char)
  | '\\' :: 'u' :: a :: b :: c :: d :: cs =>
    match unit? a b c d with
    | some n => if isTrailing n then some (n, cs) else none
    | none => none
  | _ => none

theorem trailing?_length {cs rest : List Char} {n : Nat} (h : trailing? cs = some (n, rest)) :
    rest.length < cs.length := by
  unfold trailing? at h
  split at h
  · split at h
    · split at h
      · obtain ⟨-, rfl⟩ := by simpa using h
        simp
        omega
      · simp at h
    · simp at h
  · simp at h

/-- The rest of a string after `acc`, which is reversed. `whole` says that no half of a character
has been met. -/
def stringFrom? (whole : Bool) (acc : List Char) : List Char → Option (Option String × List Char)
  | [] => none
  | '"' :: cs => some (if whole then some (String.ofList acc.reverse) else none, cs)
  | '\\' :: 'u' :: a :: b :: c :: d :: cs =>
    match unit? a b c d with
    | none => none
    | some n =>
      if isLeading n then
        match _h : trailing? cs with
        | some (m, rest) =>
          stringFrom? whole (Char.ofNat (0x10000 + (n - 0xD800) * 1024 + (m - 0xDC00)) :: acc) rest
        | none => stringFrom? false acc cs
      else if isTrailing n then stringFrom? false acc cs
      else stringFrom? whole (Char.ofNat n :: acc) cs
  | '\\' :: c :: cs =>
    match escape? c with
    | some e => stringFrom? whole (e :: acc) cs
    | none => none
  | c :: cs => if c.toNat < 32 then none else stringFrom? whole (c :: acc) cs
termination_by cs => cs.length
decreasing_by
  · have := trailing?_length _h
    simp only [List.length_cons]
    omega
  all_goals
    simp only [List.length_cons]
    omega

/-- Digits in front, none of them a needless zero. -/
def wholePart? (cs : List Char) : Option (List Char × List Char) :=
  match cs with
  | '0' :: cs => some (['0'], cs)
  | cs =>
    let ds := cs.takeWhile Char.isDigit
    if ds = [] then none else some (ds, cs.dropWhile Char.isDigit)

/-- A point and at least one digit, or nothing. -/
def fractionPart? : List Char → Option (List Char × List Char)
  | '.' :: cs =>
    let ds := cs.takeWhile Char.isDigit
    if ds = [] then none else some ('.' :: ds, cs.dropWhile Char.isDigit)
  | cs => some ([], cs)

/-- A letter `e`, a sign or none and at least one digit, or nothing. -/
def exponentPart? : List Char → Option (List Char × List Char)
  | c :: cs =>
    if c = 'e' || c = 'E' then
      let (sign, cs) :=
        match cs with
        | '+' :: cs => (['+'], cs)
        | '-' :: cs => (['-'], cs)
        | cs => ([], cs)
      let ds := cs.takeWhile Char.isDigit
      if ds = [] then none else some (c :: sign ++ ds, cs.dropWhile Char.isDigit)
    else some ([], c :: cs)
  | [] => some ([], [])

def numeral? (cs : List Char) : Option (String × List Char) := do
  let (sign, cs) :=
    match cs with
    | '-' :: cs => (['-'], cs)
    | cs => ([], cs)
  let (whole, cs) ← wholePart? cs
  let (fraction, cs) ← fractionPart? cs
  let (exponent, cs) ← exponentPart? cs
  some (String.ofList (sign ++ whole ++ fraction ++ exponent), cs)

mutual

/-- A value after blanks, nested no deeper than `fuel` allows. -/
def value? : Nat → List Char → Option (Json × List Char)
  | 0, _ => none
  | fuel + 1, cs =>
    match skipSpace cs with
    | 'n' :: 'u' :: 'l' :: 'l' :: cs => some (null, cs)
    | 't' :: 'r' :: 'u' :: 'e' :: cs => some (bool true, cs)
    | 'f' :: 'a' :: 'l' :: 's' :: 'e' :: cs => some (bool false, cs)
    | '"' :: cs => (stringFrom? true [] cs).map fun (s, cs) => (string s, cs)
    | '[' :: cs =>
      match skipSpace cs with
      | ']' :: cs => some (array [], cs)
      | cs => (items? fuel cs).map fun (items, cs) => (array items, cs)
    | '{' :: cs =>
      match skipSpace cs with
      | '}' :: cs => some (object [], cs)
      | cs => (members? fuel cs).map fun (members, cs) => (object members, cs)
    | cs => (numeral? cs).map fun (n, cs) => (number n, cs)

def items? : Nat → List Char → Option (List Json × List Char)
  | 0, _ => none
  | fuel + 1, cs =>
    match value? fuel cs with
    | none => none
    | some (item, cs) =>
      match skipSpace cs with
      | ',' :: cs => (items? fuel cs).map fun (items, cs) => (item :: items, cs)
      | ']' :: cs => some ([item], cs)
      | _ => none

def members? : Nat → List Char → Option (List (Option String × Json) × List Char)
  | 0, _ => none
  | fuel + 1, cs =>
    match skipSpace cs with
    | '"' :: cs =>
      match stringFrom? true [] cs with
      | none => none
      | some (name, cs) =>
        match skipSpace cs with
        | ':' :: cs =>
          match value? fuel cs with
          | none => none
          | some (value, cs) =>
            match skipSpace cs with
            | ',' :: cs =>
              (members? fuel cs).map fun (members, cs) => ((name, value) :: members, cs)
            | '}' :: cs => some ([(name, value)], cs)
            | _ => none
        | _ => none
    | _ => none

end

/-- The value of a JSON text. Every two steps of the reader pass over a character. -/
def ofChars? (cs : List Char) : Option Json :=
  match value? (2 * cs.length + 2) cs with
  | some (value, rest) => if skipSpace rest = [] then some value else none
  | none => none

def parse? (text : String) : Option Json :=
  ofChars? text.toList

end GribCatalog.Json
