import GribCatalog.Json.Reader
import GribCatalog.Yaml.Cursor

/-!
Scalars as they are written: plain, in quotes, and as blocks of lines. A break between lines of text
is folded into a blank, except in literal blocks.
-/

namespace GribCatalog.Yaml

structure Scalar where
  text : String
  isPlain : Bool
deriving DecidableEq

namespace Scalar

structure Ending where
  cursor : Cursor
  lineEnded : Bool

def isFlowMark (ch : Char) : Bool :=
  ch = ',' || ch = '[' || ch = ']' || ch = '{' || ch = '}'

/-- The characters of a plain scalar up to a blank or a mark that ends it. Between brackets a colon
may not stand right before a mark. -/
def word? (inFlow : Bool) : List Char → Option (List Char)
  | [] => some []
  | ch :: cs =>
    let next := cs.head?
    if isBlank ch || isBreak ch then some []
    else if inFlow && ch = ':' && next.any fun n => isFlowMark n || n = '?' then none
    else if ch = ':' && next.all fun n => isBlank n || isBreak n then some []
    else if inFlow && isFlowMark ch then some []
    else (word? inFlow cs).map (ch :: ·)

/-- Reads on in a plain scalar whose lines start at column `least` or after it. `fuel` bounds its
words. -/
def plainFrom? (inFlow : Bool) (least : Nat) :
    Nat → List Char → Gap → Cursor → Option (List Char × Ending)
  | 0, text, gap, c => some (text, ⟨c, gap.isFolded⟩)
  | fuel + 1, text, gap, c =>
    if c.startsDocumentMark || c.at? 0 '#' then some (text, ⟨c, gap.isFolded⟩)
    else do
      let word ← word? inFlow c.rest
      let c := c.skip word.length
      let (text, gap) := if word = [] then (text, gap) else (text ++ gap.text ++ word, .blanks [])
      if c.rest = [] || !c.blankAt 0 then some (text, ⟨c, gap.isFolded⟩)
      else
        let (gap, c) ← gap.read? least c.rest.length c
        if !inFlow && c.column < least then some (text, ⟨c, gap.isFolded⟩)
        else plainFrom? inFlow least fuel text gap c

def plain? (inFlow : Bool) (least : Nat) (c : Cursor) : Option (Scalar × Ending) :=
  (plainFrom? inFlow least (c.rest.length + 1) [] (.blanks []) c).map fun (text, e) =>
    (⟨String.ofList text, true⟩, e)

def escape? (ch : Char) : Option Char :=
  match ch with
  | '0' => some (Char.ofNat 0)
  | 'a' => some (Char.ofNat 7)
  | 'b' => some (Char.ofNat 8)
  | 't' => some '\t'
  | '\t' => some '\t'
  | 'n' => some '\n'
  | 'v' => some (Char.ofNat 11)
  | 'f' => some (Char.ofNat 12)
  | 'r' => some '\r'
  | 'e' => some (Char.ofNat 27)
  | ' ' => some ' '
  | '"' => some '"'
  | '/' => some '/'
  | '\\' => some '\\'
  | 'N' => some (Char.ofNat 0x85)
  | '_' => some (Char.ofNat 0xA0)
  | 'L' => some (Char.ofNat 0x2028)
  | 'P' => some (Char.ofNat 0x2029)
  | _ => none

def escapeDigits? (ch : Char) : Option Nat :=
  match ch with
  | 'x' => some 2
  | 'u' => some 4
  | 'U' => some 8
  | _ => none

def hexNumber? (ds : List Char) : Option Nat :=
  ds.foldlM (fun n d => (Json.hexDigit? d).map fun m => 16 * n + m) 0

/-- The character of an escape, after its backslash, and how many characters the escape has there.
-/
def escaped? : List Char → Option (Char × Nat)
  | [] => none
  | ch :: cs =>
    match escapeDigits? ch with
    | some count =>
      if count ≤ cs.length then
        (hexNumber? (cs.take count)).bind fun n =>
          if n.isValidChar then some (Char.ofNat n, count + 1) else none
      else none
    | none => (escape? ch).map fun e => (e, 1)

/-- The characters of a quoted scalar up to white space or its closing quote. An escaped break ends
them too, and is passed over. `fuel` bounds their number. -/
def quotedWord? (double : Bool) : Nat → List Char → Cursor → Option (List Char × Bool × Cursor)
  | 0, text, c => some (text, false, c)
  | fuel + 1, text, c =>
    if c.rest = [] || c.blankAt 0 then some (text, false, c)
    else if double then
      if c.at? 0 '"' then some (text, false, c)
      else if c.at? 0 '\\' then
        if c.rest.length ≠ 1 && c.breakAt 1 then some (text, true, (c.skip 1).skipBreak.2)
        else do
          let (ch, count) ← escaped? (c.rest.drop 1)
          quotedWord? double fuel (text ++ [ch]) (c.skip (count + 1))
      else quotedWord? double fuel (text ++ c.rest.take 1) (c.skip 1)
    else if c.at? 0 '\'' then
      if c.at? 1 '\'' then quotedWord? double fuel (text ++ ['\'']) (c.skip 2)
      else some (text, false, c)
    else quotedWord? double fuel (text ++ c.rest.take 1) (c.skip 1)

/-- Reads on in a quoted scalar. `fuel` bounds its words. -/
def quotedFrom? (double : Bool) : Nat → List Char → Cursor → Option (List Char × Cursor)
  | 0, _, _ => none
  | fuel + 1, text, c =>
    if c.startsDocumentMark || c.rest = [] then none
    else do
      let (text, brokeLine, c) ← quotedWord? double c.rest.length text c
      if c.at? 0 (if double then '"' else '\'') then some (text, c.skip 1)
      else
        let gap : Gap := if brokeLine then .breaks [] [] else .blanks []
        let (gap, c) ← gap.read? 0 c.rest.length c
        quotedFrom? double fuel (text ++ gap.text) c

def quoted? (double : Bool) (c : Cursor) : Option (Scalar × Cursor) :=
  (quotedFrom? double (c.rest.length + 1) [] (c.skip 1)).map fun (cs, c) =>
    (⟨String.ofList cs, false⟩, c)

inductive Chomping
  | strip
  | clip
  | keep
deriving DecidableEq

def chomping? : Option Char → Option Chomping
  | some '+' => some .keep
  | some '-' => some .strip
  | _ => none

def indentation? (ch : Option Char) : Option Nat :=
  (ch.filter Char.isDigit).map fun d => d.toNat - 48

/-- Chomping and indentation after the mark of a block, in either order. -/
def blockHeader? (c : Cursor) : Option (Chomping × Option Nat × Cursor) :=
  let (chomping, width, c) :=
    match chomping? c.peek? with
    | some chomping =>
      match indentation? (c.ahead? 1) with
      | some width => (chomping, some width, c.skip 2)
      | none => (chomping, none, c.skip 1)
    | none =>
      match indentation? c.peek? with
      | some width =>
        match chomping? (c.ahead? 1) with
        | some chomping => (chomping, some width, c.skip 2)
        | none => (Chomping.clip, some width, c.skip 1)
      | none => (Chomping.clip, none, c)
  let c := (c.skipWhile isBlank).skipComment
  if width = some 0 || !c.breakAt 0 then none else some (chomping, width, c.skipBreak.2)

/-- Passes over the indentation of a line and over empty lines. Column `indent` is where the text of
the block starts, unless that is still open. The deepest column met comes with the breaks. `fuel`
bounds the lines. -/
def blockBreaks? (indent : Option Nat) :
    Nat → Nat → List Char → Cursor → Option (Nat × List Char × Cursor)
  | 0, deepest, breaks, c => some (deepest, breaks, c)
  | fuel + 1, deepest, breaks, c =>
    let blanks := (c.rest.takeWhile (· = ' ')).length
    let c := c.skip (match indent with
      | some n => min blanks (n - c.column)
      | none => blanks)
    let deepest := max deepest c.column
    if c.at? 0 '\t' && indent.all fun n => c.column < n then none
    else if c.rest ≠ [] && c.breakAt 0 then
      let (b, c) := c.skipBreak
      blockBreaks? indent fuel deepest (breaks ++ b) c
    else some (deepest, breaks, c)

structure BlockText where
  text : List Char := []
  first : List Char := []
  more : List Char
  /-- Whether the last line began with a blank. -/
  indented : Bool := false

/-- Joins the breaks to the text. A folded block joins two lines that begin with no blank by one. -/
def BlockText.joined (literal nextIndented : Bool) (b : BlockText) : List Char :=
  if !literal && b.first = ['\n'] && !b.indented && !nextIndented then
    b.text ++ (if b.more = [] then [' '] else b.more)
  else b.text ++ b.first ++ b.more

/-- The lines of a block at column `indent`. `fuel` bounds their number. -/
def blockLines? (literal : Bool) (indent : Nat) :
    Nat → BlockText → Cursor → Option (BlockText × Cursor)
  | 0, b, c => some (b, c)
  | fuel + 1, b, c =>
    if c.column = indent && c.rest ≠ [] then do
      let indented := c.peek?.any isBlank
      let line := c.rest.takeWhile fun ch => !isBreak ch
      let text := b.joined literal indented ++ line
      let (first, c) := (c.skip line.length).skipBreak
      let (_, more, c) ← blockBreaks? (some indent) (c.rest.length + 1) 0 [] c
      blockLines? literal indent fuel { text, first, more, indented } c
    else some (b, c)

/-- A block, from its mark on, in a collection at column `parent` if there is one. -/
def block? (literal : Bool) (parent : Option Nat) (c : Cursor) : Option (Scalar × Cursor) := do
  let (chomping, width, c) ← blockHeader? (c.skip 1)
  let least := (parent.map (· + 1)).getD 0
  let given := width.map fun w => parent.getD 0 + w
  let (deepest, more, c) ← blockBreaks? given (c.rest.length + 1) 0 [] c
  let indent := given.getD (max 1 (max deepest least))
  let (b, c) ← blockLines? literal indent (c.rest.length + 1) { more } c
  let tail :=
    match chomping with
    | .strip => []
    | .clip => b.first
    | .keep => b.first ++ b.more
  some (⟨String.ofList (b.text ++ tail), false⟩, c)

end Scalar

end GribCatalog.Yaml
