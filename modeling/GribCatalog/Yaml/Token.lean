import GribCatalog.Yaml.Scalar

/-!
The tokens of a YAML text. Marks that a text leaves to its indentation, such as the start and the
end of a block, are tokens of their own. A key is known as one only when the colon after it is met,
so that its token goes back to the place where the key began.
-/

namespace GribCatalog.Yaml

inductive Directive
  | version (major minor : Nat)
  | tag (handle start : String)
deriving DecidableEq

inductive Token
  | directive (d : Directive)
  | documentStart
  | documentEnd
  | blockSequence
  | blockMapping
  | blockEnd
  | flowSequence
  | flowSequenceEnd
  | flowMapping
  | flowMappingEnd
  | entry
  | comma
  | key
  | value
  | alias (name : String)
  | anchor (name : String)
  | tag (handle suffix : String)
  | scalar (s : Scalar)
deriving DecidableEq

structure KeyStart where
  /-- Tokens before it. -/
  count : Nat
  index : Nat
  line : Nat
  column : Nat
  /-- Whether nothing but a key may stand there. -/
  isRequired : Bool

structure Lexer where
  cursor : Cursor
  /-- Latest first. -/
  tokens : List Token := []
  /-- What may be a key, for every open bracket and outside of all, innermost first. -/
  keys : List (Option KeyStart) := [none]
  /-- Columns of the open blocks, innermost first. -/
  indents : List Nat := []
  keyAllowed : Bool := true

namespace Lexer

def inFlow (l : Lexer) : Bool :=
  2 ≤ l.keys.length

def emit (l : Lexer) (t : Token) : Lexer :=
  { l with tokens := t :: l.tokens }

def insertAfter (l : Lexer) (count : Nat) (t : Token) : Lexer :=
  let later := l.tokens.length - count
  { l with tokens := l.tokens.take later ++ t :: l.tokens.drop later }

def leastColumn (l : Lexer) : Nat :=
  match l.indents with
  | [] => 0
  | n :: _ => n + 1

/-- Opens a block at a column right of the innermost one, with a token after the first `count`. -/
def openBlock (l : Lexer) (column count : Nat) (t : Token) : Lexer :=
  if !l.inFlow && l.leastColumn ≤ column then
    { l.insertAfter count t with indents := column :: l.indents }
  else l

/-- Closes the blocks right of a column, given as one more, and all blocks for zero. -/
def closeBlocks (l : Lexer) (column : Nat) : Lexer :=
  if l.inFlow then l
  else
    let closed := (l.indents.takeWhile fun n => column ≤ n).length
    { l with
      indents := l.indents.drop closed
      tokens := List.replicate closed .blockEnd ++ l.tokens }

def dropKey? (l : Lexer) : Option Lexer :=
  match l.keys with
  | some k :: rest => if k.isRequired then none else some { l with keys := none :: rest }
  | _ => some l

def noteKey? (l : Lexer) : Option Lexer :=
  if l.keyAllowed then do
    let l ← l.dropKey?
    let c := l.cursor
    let k : KeyStart := {
      count := l.tokens.length
      index := c.index
      line := c.line
      column := c.column
      isRequired := !l.inFlow && l.indents.head? = some c.column }
    some { l with keys := some k :: l.keys.drop 1 }
  else some l

def isStale (c : Cursor) (k : KeyStart) : Bool :=
  k.line < c.line || k.index + 1024 < c.index

def dropStaleKeys? (l : Lexer) : Option Lexer := do
  let keys ← l.keys.mapM fun k =>
    match k with
    | some k =>
      if isStale l.cursor k then if k.isRequired then none else some none else some (some k)
    | none => some none
  some { l with keys }

def skip (l : Lexer) (n : Nat) : Lexer :=
  { l with cursor := l.cursor.skip n }

/-- Passes over white space and comments. Outside of brackets, a tab may not stand where a key may.
`fuel` bounds the lines. -/
def toNext : Nat → Lexer → Lexer
  | 0, l => l
  | fuel + 1, l =>
    let tabs := l.inFlow || !l.keyAllowed
    let c := (l.cursor.skipWhile fun ch => ch = ' ' || (tabs && ch = '\t')).skipComment
    if c.rest ≠ [] && c.breakAt 0 then
      toNext fuel { l with cursor := c.skipBreak.2, keyAllowed := l.keyAllowed || !l.inFlow }
    else { l with cursor := c }

/-- A mark that starts or ends a document, or a directive, ends all blocks. -/
def endBlocks? (l : Lexer) : Option Lexer := do
  let l ← (l.closeBlocks 0).dropKey?
  some { l with keyAllowed := false }

def isNameChar (ch : Char) : Bool :=
  ch.isAlphanum || ch = '_' || ch = '-'

def name (c : Cursor) : List Char :=
  c.rest.takeWhile isNameChar

def versionPart? (c : Cursor) : Option (Nat × Cursor) :=
  let ds := c.rest.takeWhile Char.isDigit
  if ds = [] || 9 < ds.length then none
  else some (Nat.ofDigitChars 10 ds 0, c.skip ds.length)

def version? (c : Cursor) : Option (Directive × Cursor) := do
  let (major, c) ← versionPart? (c.skipWhile isBlank)
  if !c.at? 0 '.' then none
  let (minor, c) ← versionPart? (c.skip 1)
  some (.version major minor, c)

def isTagChar (verbatim : Bool) (ch : Char) : Bool :=
  isNameChar ch || ch ∈ [';', '/', '?', ':', '@', '&', '=', '+', '$', '.', '%', '!', '~', '*',
    '\'', '(', ')'] || (verbatim && ch ∈ [',', '[', ']'])

/-- The bytes of a tag, in which two hexadecimal digits after a percent sign stand for one. -/
def tagBytes? : List Char → Option (List UInt8)
  | [] => some []
  | '%' :: a :: b :: cs => do
    let a ← Json.hexDigit? a
    let b ← Json.hexDigit? b
    let rest ← tagBytes? cs
    some (UInt8.ofNat (16 * a + b) :: rest)
  | '%' :: _ => none
  | ch :: cs => (tagBytes? cs).map fun rest => UInt8.ofNat ch.toNat :: rest

/-- The rest of a tag after `start`. One of the two may not be empty. -/
def tagText? (verbatim : Bool) (start : List Char) (c : Cursor) : Option (String × Cursor) := do
  let cs := c.rest.takeWhile (isTagChar verbatim)
  if start = [] && cs = [] then none
  let bytes ← tagBytes? cs
  let text ← String.fromUTF8? ⟨bytes.toArray⟩
  some (String.ofList (start.drop 1) ++ text, c.skip cs.length)

/-- A handle: an exclamation mark, or a name between two. -/
def handle? (c : Cursor) : Option (List Char × Cursor) :=
  if c.at? 0 '!' then
    let word := name (c.skip 1)
    let c := c.skip (word.length + 1)
    if c.at? 0 '!' then some ('!' :: word ++ ['!'], c.skip 1) else some ('!' :: word, c)
  else none

def tagDirective? (c : Cursor) : Option (Directive × Cursor) := do
  let (handle, c) ← handle? (c.skipWhile isBlank)
  if handle ≠ ['!'] && handle.getLast? ≠ some '!' then none
  if !(c.peek?.any isBlank) then none
  let (start, c) ← tagText? true [] (c.skipWhile isBlank)
  if !c.blankAt 0 then none
  some (.tag (String.ofList handle) start, c)

/-- A directive, from its percent sign on. Nothing but a comment may follow it on its line. -/
def directive? (c : Cursor) : Option (Directive × Cursor) := do
  let word := name (c.skip 1)
  let c := c.skip (word.length + 1)
  if !c.blankAt 0 then none
  let (d, c) ←
    match String.ofList word with
    | "YAML" => version? c
    | "TAG" => tagDirective? c
    | _ => none
  let c := (c.skipWhile isBlank).skipComment
  if c.breakAt 0 then some (d, c) else none

def tag? (inFlow : Bool) (c : Cursor) : Option (Token × Cursor) := do
  let (t, c) ←
    if c.at? 1 '<' then do
      let (uri, c) ← tagText? true [] (c.skip 2)
      if c.at? 0 '>' then some (Token.tag "" uri, c.skip 1) else none
    else do
      let (handle, c) ← handle? c
      if 2 ≤ handle.length && handle.getLast? = some '!' then do
        let (uri, c) ← tagText? false [] c
        some (Token.tag (String.ofList handle) uri, c)
      else do
        let (uri, c) ← tagText? false handle c
        some (if uri = "" then Token.tag "" "!" else Token.tag "!" uri, c)
  if c.blankAt 0 || (inFlow && c.at? 0 ',') then some (t, c) else none

def anchor? (c : Cursor) : Option (String × Cursor) :=
  let word := name (c.skip 1)
  let c := c.skip (word.length + 1)
  let ends := c.blankAt 0 || c.peek?.any fun ch => ch ∈ ['?', ':', ',', ']', '}', '%', '@', '\x60']
  if word ≠ [] && ends then some (String.ofList word, c) else none

/-- A token of its own, after which no key may begin. -/
def node (l : Lexer) (t : Token) (c : Cursor) : Lexer :=
  { l with tokens := t :: l.tokens, cursor := c, keyAllowed := false }

def openFlow? (l : Lexer) (t : Token) : Option Lexer := do
  let l ← l.noteKey?
  some ({ l with keys := none :: l.keys, keyAllowed := true }.emit t |>.skip 1)

def closeFlow? (l : Lexer) (t : Token) : Option Lexer := do
  let l ← l.dropKey?
  let keys := if l.inFlow then l.keys.drop 1 else l.keys
  some ({ l with keys, keyAllowed := false }.emit t |>.skip 1)

def comma? (l : Lexer) : Option Lexer := do
  let l ← l.dropKey?
  some ({ l with keyAllowed := true }.emit .comma |>.skip 1)

/-- A hyphen, which starts a block of its column if there is none. -/
def entry? (l : Lexer) : Option Lexer := do
  if !l.inFlow && !l.keyAllowed then none
  let l := l.openBlock l.cursor.column l.tokens.length .blockSequence
  let l ← l.dropKey?
  some ({ l with keyAllowed := true }.emit .entry |>.skip 1)

def explicitKey? (l : Lexer) : Option Lexer := do
  if !l.inFlow && !l.keyAllowed then none
  let l := l.openBlock l.cursor.column l.tokens.length .blockMapping
  let l ← l.dropKey?
  some ({ l with keyAllowed := !l.inFlow }.emit .key |>.skip 1)

/-- A colon. What stands before it is its key if it may be one. -/
def value? (l : Lexer) : Option Lexer :=
  match l.keys with
  | some k :: rest =>
    let l := (l.insertAfter k.count .key).openBlock k.column k.count .blockMapping
    some ({ l with keys := none :: rest, keyAllowed := false }.emit .value |>.skip 1)
  | _ =>
    if !l.inFlow && !l.keyAllowed then none
    else
      let l := l.openBlock l.cursor.column l.tokens.length .blockMapping
      some ({ l with keyAllowed := !l.inFlow }.emit .value |>.skip 1)

def block? (l : Lexer) (literal : Bool) : Option Lexer := do
  let l ← l.dropKey?
  let (s, c) ← Scalar.block? literal l.indents.head? l.cursor
  some { l with tokens := .scalar s :: l.tokens, cursor := c, keyAllowed := true }

def quoted? (l : Lexer) (double : Bool) : Option Lexer := do
  let l ← l.noteKey?
  let (s, c) ← Scalar.quoted? double l.cursor
  some (l.node (.scalar s) c)

def plain? (l : Lexer) : Option Lexer := do
  let l ← l.noteKey?
  let (s, e) ← Scalar.plain? l.inFlow l.leastColumn l.cursor
  some { l.node (.scalar s) e.cursor with keyAllowed := e.lineEnded }

def startsPlain (inFlow : Bool) (ch : Char) (c : Cursor) : Bool :=
  if ch = '-' then !(c.ahead? 1).any isBlank
  else if ch = '?' || ch = ':' then !inFlow && !c.blankAt 1
  else ch ∉ [',', '[', ']', '{', '}', '#', '&', '*', '!', '|', '>', '\'', '"', '%', '@', '\x60'] &&
    !isBlank ch && !isBreak ch

def token? (l : Lexer) (ch : Char) : Option Lexer :=
  let c := l.cursor
  if c.column = 0 && ch = '%' then do
    let l ← l.endBlocks?
    let (d, c) ← directive? c
    some { l.emit (.directive d) with cursor := c }
  else if c.startsDocumentMark then do
    let l ← l.endBlocks?
    some ((l.emit (if ch = '-' then .documentStart else .documentEnd)).skip 3)
  else if ch = '[' then l.openFlow? .flowSequence
  else if ch = '{' then l.openFlow? .flowMapping
  else if ch = ']' then l.closeFlow? .flowSequenceEnd
  else if ch = '}' then l.closeFlow? .flowMappingEnd
  else if ch = ',' then l.comma?
  else if ch = '-' && c.blankAt 1 then l.entry?
  else if ch = '?' && (l.inFlow || c.blankAt 1) then l.explicitKey?
  else if ch = ':' && (l.inFlow || c.blankAt 1) then l.value?
  else if ch = '*' then do
    let l ← l.noteKey?
    let (s, c) ← anchor? c
    some (l.node (.alias s) c)
  else if ch = '&' then do
    let l ← l.noteKey?
    let (s, c) ← anchor? c
    some (l.node (.anchor s) c)
  else if ch = '!' then do
    let l ← l.noteKey?
    let (t, c) ← tag? l.inFlow c
    some (l.node t c)
  else if ch = '|' && !l.inFlow then l.block? true
  else if ch = '>' && !l.inFlow then l.block? false
  else if ch = '\'' then l.quoted? false
  else if ch = '"' then l.quoted? true
  else if startsPlain l.inFlow ch c then l.plain?
  else none

/-- All tokens from here on. Each takes a character at least, and `fuel` bounds their number. -/
def tokensFrom? : Nat → Lexer → Option (List Token)
  | 0, _ => none
  | fuel + 1, l => do
    let l ← (l.toNext (l.cursor.rest.length + 1)).dropStaleKeys?
    let l := l.closeBlocks (l.cursor.column + 1)
    match l.cursor.peek? with
    | none =>
      let l ← l.endBlocks?
      some l.tokens.reverse
    | some ch =>
      let l ← l.token? ch
      tokensFrom? fuel l

end Lexer

def tokens? (text : List Char) : Option (List Token) :=
  let text := if text.head? = some (Char.ofNat 0xFEFF) then text.drop 1 else text
  if text.all isPrintable then
    Lexer.tokensFrom? (text.length + 1) ⟨⟨text, 0, 0, 0⟩, [], [none], [], true⟩
  else none

end GribCatalog.Yaml
