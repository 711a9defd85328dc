/-!
A place in a YAML text: its line, its column, and what comes from there on. A line ends with a line
feed, a carriage return or both, or one of three breaks that are not ASCII.
-/

namespace GribCatalog.Yaml

def isBlank (c : Char) : Bool :=
  c = ' ' || c = '\t'

def isBreak (c : Char) : Bool :=
  let n := c.toNat
  n == 10 || n == 13 || n == 0x85 || n == 0x2028 || n == 0x2029

def isPrintable (c : Char) : Bool :=
  let n := c.toNat
  n == 9 || n == 10 || n == 13 || (32 ≤ n && n ≤ 126) || n == 0x85 || (0xA0 ≤ n && n ≤ 0xD7FF) ||
    (0xE000 ≤ n && n ≤ 0xFFFD) || 0x10000 ≤ n

structure Cursor where
  rest : List Char
  line : Nat := 0
  column : Nat := 0
  /-- Characters before this place. -/
  index : Nat := 0

namespace Cursor

def peek? (c : Cursor) : Option Char :=
  c.rest.head?

def ahead? (c : Cursor) (n : Nat) : Option Char :=
  c.rest[n]?

def at? (c : Cursor) (n : Nat) (ch : Char) : Bool :=
  c.ahead? n = some ch

/-- Whether a blank, a break or the end comes `n` places further on. -/
def blankAt (c : Cursor) (n : Nat) : Bool :=
  match c.ahead? n with
  | some ch => isBlank ch || isBreak ch
  | none => true

def breakAt (c : Cursor) (n : Nat) : Bool :=
  match c.ahead? n with
  | some ch => isBreak ch
  | none => true

def skip (c : Cursor) (n : Nat) : Cursor :=
  { c with rest := c.rest.drop n, column := c.column + n, index := c.index + n }

/-- Passes over a break and gives it as it counts in scalars. -/
def skipBreak (c : Cursor) : List Char × Cursor :=
  let next (n : Nat) : Cursor :=
    { rest := c.rest.drop n, line := c.line + 1, column := 0, index := c.index + n }
  match c.rest with
  | '\r' :: '\n' :: _ => (['\n'], next 2)
  | ch :: _ =>
    if ch.toNat = 0x2028 || ch.toNat = 0x2029 then ([ch], next 1)
    else if isBreak ch then (['\n'], next 1)
    else ([], c)
  | [] => ([], c)

def skipWhile (c : Cursor) (p : Char → Bool) : Cursor :=
  c.skip (c.rest.takeWhile fun ch => p ch && !isBreak ch).length

def skipComment (c : Cursor) : Cursor :=
  if c.at? 0 '#' then c.skipWhile fun _ => true else c

/-- Whether a mark of three characters stands alone at the start of a line. -/
def startsMark (c : Cursor) (ch : Char) : Bool :=
  c.column = 0 && c.at? 0 ch && c.at? 1 ch && c.at? 2 ch && c.blankAt 3

def startsDocumentMark (c : Cursor) : Bool :=
  c.startsMark '-' || c.startsMark '.'

end Cursor

inductive Gap
  /-- Blanks within a line. -/
  | blanks (cs : List Char)
  /-- The first break, which is empty if it is escaped, and the breaks after it. -/
  | breaks (first more : List Char)

namespace Gap

def isFolded : Gap → Bool
  | blanks _ => false
  | breaks .. => true

/-- A single line feed becomes a blank, and one before other breaks is left out. -/
def text : Gap → List Char
  | blanks cs => cs
  | breaks ['\n'] [] => [' ']
  | breaks ['\n'] more => more
  | breaks first more => first ++ more

/-- Reads on in a gap. A tab before column `least` of a line is refused. `fuel` bounds its
characters. -/
def read? (least : Nat) : Nat → Gap → Cursor → Option (Gap × Cursor)
  | 0, gap, c => some (gap, c)
  | fuel + 1, gap, c =>
    match c.peek? with
    | none => some (gap, c)
    | some ch =>
      if isBlank ch then
        match gap with
        | blanks cs => read? least fuel (blanks (cs ++ [ch])) (c.skip 1)
        | breaks .. =>
          if ch = '\t' && c.column < least then none else read? least fuel gap (c.skip 1)
      else if isBreak ch then
        let (b, c) := c.skipBreak
        match gap with
        | blanks _ => read? least fuel (breaks b []) c
        | breaks first more => read? least fuel (breaks first (more ++ b)) c
      else some (gap, c)

end Gap

end GribCatalog.Yaml
