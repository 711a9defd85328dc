import GribCatalog.Catalog.Settings

/-!
Variables in a text. An expression `${name}` stands for the value of a variable, and one of a name,
`:-` and a text for that text where the value is not set or empty. What is put in is not read again.
-/

namespace GribCatalog.Expansion

inductive Piece
  | plain (c : Char)
  | expression (text : List Char)
  /-- What follows the last `${` if no brace closes it. -/
  | unclosed (text : List Char)
deriving DecidableEq, Repr

def pieces (cs : List Char) : List Piece :=
  match cs with
  | [] => []
  | '$' :: '{' :: cs =>
    match _h : Text.splitOnce? '}' cs with
    | none => [.unclosed cs]
    | some (expression, rest) => .expression expression :: pieces rest
  | c :: cs => .plain c :: pieces cs
termination_by cs.length
decreasing_by
  · have := Text.length_of_splitOnce? _h
    simp
    omega
  · simp

/-- The name in an expression, and the text to put in where its variable has no value. -/
def reference (expression : List Char) : String × Option (List Char) :=
  match Text.splitAt? [':', '-'] expression with
  | some (name, dflt) => (String.ofList (Text.trim name), some dflt)
  | none => (String.ofList (Text.trim expression), none)

def resolve (env : Environment) (expression : List Char) : Except SettingsFault (List Char) :=
  let (name, dflt) := reference expression
  let value := (env.lookup name).map String.toList
  match dflt with
  | some dflt => .ok ((value.filter (· ≠ [])).getD dflt)
  | none =>
    match value with
    | some value => .ok value
    | none => .error (.unset (String.ofList expression))

def Piece.expand (env : Environment) : Piece → Except SettingsFault (List Char)
  | plain c => .ok [c]
  | expression text => resolve env text
  | unclosed text => .error (.unclosed (String.ofList text))

/-- The text with every expression replaced, up to the first that stands for nothing or has no end.
-/
def expandChars (env : Environment) (cs : List Char) : Except SettingsFault (List Char) := do
  let parts ← (pieces cs).mapM (Piece.expand env)
  .ok parts.flatten

def expand (env : Environment) (text : String) : Except SettingsFault String :=
  (expandChars env text.toList).map String.ofList

def variableNames (text : String) : List String :=
  (pieces text.toList).filterMap fun
    | .expression text => some (reference text).1
    | _ => none

end GribCatalog.Expansion
