import GribCatalog.Json.Basic
import GribCatalog.Binary64.Shortest

/-!
Writing JSON texts, on one line or with an item or a member on each. Only what has to be escaped is.
-/

namespace GribCatalog.Json

def hexChar (n : Nat) : Char :=
  if n < 10 then Char.ofNat (48 + n) else Char.ofNat (87 + n)

def escapeChar (c : Char) : List Char :=
  if c = '"' then ['\\', '"']
  else if c = '\\' then ['\\', '\\']
  else if c = '\n' then ['\\', 'n']
  else if c = '\r' then ['\\', 'r']
  else if c = '\t' then ['\\', 't']
  else if c.toNat = 8 then ['\\', 'b']
  else if c.toNat = 12 then ['\\', 'f']
  else if c.toNat < 32 then ['\\', 'u', '0', '0', hexChar (c.toNat / 16), hexChar (c.toNat % 16)]
  else [c]

/-- A string in quotes. Half of a character is written as one, whatever the string was. -/
def quoted : Option String → List Char
  | some s => '"' :: s.toList.flatMap escapeChar ++ ['"']
  | none => "\"\\ud800\"".toList

mutual

def compactChars : Json → List Char
  | null => ['n', 'u', 'l', 'l']
  | bool true => ['t', 'r', 'u', 'e']
  | bool false => ['f', 'a', 'l', 's', 'e']
  | number n => n.toList
  | string s => quoted s
  | array items => '[' :: compactItems items ++ [']']
  | object members => '{' :: compactMembers members ++ ['}']

def compactItems : List Json → List Char
  | [] => []
  | [item] => item.compactChars
  | item :: next :: items => item.compactChars ++ ',' :: compactItems (next :: items)

def compactMembers : List (Option String × Json) → List Char
  | [] => []
  | [(name, value)] => quoted name ++ ':' :: value.compactChars
  | (name, value) :: next :: members =>
    quoted name ++ ':' :: value.compactChars ++ ',' :: compactMembers (next :: members)

end

/-- The start of a line at a depth: two blanks for each level. -/
def newLine (level : Nat) : List Char :=
  '\n' :: List.replicate (2 * level) ' '

mutual

/-- A value with its items and members on lines of their own, `level` deep. -/
def prettyChars (level : Nat) : Json → List Char
  | array [] => ['[', ']']
  | array (item :: items) =>
    '[' :: prettyItems (level + 1) (item :: items) ++ newLine level ++ [']']
  | object [] => ['{', '}']
  | object (member :: members) =>
    '{' :: prettyMembers (level + 1) (member :: members) ++ newLine level ++ ['}']
  | null => ['n', 'u', 'l', 'l']
  | bool true => ['t', 'r', 'u', 'e']
  | bool false => ['f', 'a', 'l', 's', 'e']
  | number n => n.toList
  | string s => quoted s

def prettyItems (level : Nat) : List Json → List Char
  | [] => []
  | [item] => newLine level ++ item.prettyChars level
  | item :: next :: items =>
    newLine level ++ item.prettyChars level ++ ',' :: prettyItems level (next :: items)

def prettyMembers (level : Nat) : List (Option String × Json) → List Char
  | [] => []
  | [(name, value)] => newLine level ++ quoted name ++ ':' :: ' ' :: value.prettyChars level
  | (name, value) :: next :: members =>
    newLine level ++ quoted name ++ ':' :: ' ' :: value.prettyChars level ++
      ',' :: prettyMembers level (next :: members)

end

def compact (j : Json) : String :=
  String.ofList j.compactChars

def pretty (j : Json) : String :=
  String.ofList (j.prettyChars 0)

def ofNat (n : Nat) : Json :=
  number (String.ofList (Text.digits n))

def ofInt (n : Int) : Json :=
  number (String.ofList (Text.integerDigits n))

/-- Numbers from `1e-5` to below `1e16` are written without an exponent, whole ones with `.0`. -/
def numberStyle : Binary64.Style :=
  ⟨false, fun point => -4 ≤ point && point ≤ 16, ['.', '0']⟩

/-- A binary64 number, with null for those that JSON has no numeral for. -/
def ofBinary64 (x : Binary64) : Json :=
  if x.isFinite then number (String.ofList (x.text numberStyle)) else null

def ofOption {α : Type} (encode : α → Json) : Option α → Json
  | some a => encode a
  | none => null

end GribCatalog.Json
