import GribCatalog.CommandLine.Word
import GribCatalog.Space.Options

/-!
What a command line asks for. An option is given once at most before the command and once at most
after it, and what is given after it comes first.
-/

namespace GribCatalog.CommandLine

structure Overrides where
  dimensions : Option String := none
  parameter : Option String := none
  policy : Option String := none
  parallel : Bool := false
deriving DecidableEq, Repr

inductive Command
  | build (paths : List String) (output : String) (overrides : Overrides)
  | update (index : String) (paths : List String)
  | inspect (index : String)
  | lookup (index : String) (pairs : List String)
deriving DecidableEq, Repr

structure Invocation where
  /-- Path of the settings file, if there is one. -/
  config : Option String
  command : Command
deriving DecidableEq, Repr

/-- Where a catalog is written if nothing else is said. -/
def defaultOutput : String := "index.json"

def configVariable : String := "INDEXER_CONFIG"

def valuesOf (o : OptionName) (ws : List Word) : List String :=
  ws.filterMap fun
    | .setting p value => if p = o then some value else none
    | _ => none

def valueOf? (o : OptionName) (ws : List Word) : Option String :=
  (valuesOf o ws).head?

def hasSwitch (o : OptionName) (ws : List Word) : Bool :=
  ws.contains (.switch o)

def operands (ws : List Word) : List String :=
  ws.filterMap fun
    | .operand text => some text
    | _ => none

/-- The option of a word that must not be there again. -/
def Word.single? : Word → Option OptionName
  | setting o _ => if o.isRepeatable then none else some o
  | switch o => some o
  | _ => none

def Word.isEmptyPath : Word → Bool
  | setting o value => o.isPath && value = ""
  | operand text => text = ""
  | _ => false

/-- The first option that is there again after its first place. -/
def repeated? : List OptionName → Option OptionName
  | [] => none
  | o :: os => if os.contains o then some o else repeated? os

/-- Refuses repeated options and empty paths, on the command line or in the environment. -/
def check (config : Option String) (ws : List Word) : Except UsageFault Unit :=
  match repeated? (ws.filterMap Word.single?) with
  | some o => .error (.repeated o)
  | none =>
    if ws.any Word.isEmptyPath then .error .emptyPath
    else if (valueOf? .config ws).isNone && config = some "" then .error .emptyPath
    else .ok ()

def splitCommand? : List Word → Option (List Word × CommandName × List Word)
  | [] => none
  | .command c :: ws => some ([], c, ws)
  | w :: ws => (splitCommand? ws).map fun (before, c, after) => (w :: before, c, after)

def Command.ofWords (c : CommandName) (ws : List Word) : Except UsageFault Command :=
  match c, operands ws with
  | _, [] => .error .missingOperand
  | .build, paths =>
    .ok (.build paths ((valueOf? .output ws).getD defaultOutput) {
      dimensions := valueOf? .dims ws
      parameter := valueOf? .parameter ws
      policy := valueOf? .policy ws
      parallel := hasSwitch .parallel ws })
  | .update, [_] => .error .missingOperand
  | .update, index :: paths => .ok (.update index paths)
  | .inspect, [index] => .ok (.inspect index)
  | .lookup, [index] =>
    match valuesOf .value ws with
    | [] => .error (.missingOption .value)
    | pairs => .ok (.lookup index pairs)
  | _, _ :: extra :: _ => .error (.extraOperand extra)

def Invocation.ofWords (env : Environment) (ws : List Word) : Except UsageFault Invocation :=
  match splitCommand? ws with
  | none => .error .noCommand
  | some (before, c, after) => do
    let config := env.lookup configVariable
    check config after
    let command ← Command.ofWords c after
    check config before
    .ok ⟨((valueOf? .config after).or (valueOf? .config before)).or config, command⟩

def Invocation.ofArguments (env : Environment) (args : List String) : Except Stop Invocation := do
  let ws ← words none args
  (ofWords env ws).mapError Stop.misuse

end GribCatalog.CommandLine
