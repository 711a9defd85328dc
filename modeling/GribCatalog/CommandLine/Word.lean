import GribCatalog.Text.Split

/-!
The words of a command line. Options begin with a hyphen; what begins with none is an operand, the
first of which names the command. After two hyphens everything is an operand.
-/

namespace GribCatalog.CommandLine

inductive CommandName
  | build
  | update
  | inspect
  | lookup
deriving DecidableEq, Repr

def CommandName.text : CommandName → String
  | build => "build"
  | update => "update"
  | inspect => "inspect"
  | lookup => "lookup"

def CommandName.ofText? (text : String) : Option CommandName :=
  [CommandName.build, .update, .inspect, .lookup].find? fun c => c.text = text

def helpName : String := "help"

inductive OptionName
  | config
  | logLevel
  | help
  | output
  | dims
  | parameter
  | policy
  | parallel
  | value
deriving DecidableEq, Repr

namespace OptionName

def text : OptionName → String
  | config => "config"
  | logLevel => "log-level"
  | help => "help"
  | output => "output"
  | dims => "dims"
  | parameter => "parameter"
  | policy => "policy"
  | parallel => "parallel"
  | value => "value"

def letter? : OptionName → Option Char
  | config => some 'c'
  | help => some 'h'
  | output => some 'o'
  | dims => some 'd'
  | parameter => some 'p'
  | _ => none

def takesValue : OptionName → Bool
  | help => false
  | parallel => false
  | _ => true

/-- Whether the value is a path, which cannot be empty. -/
def isPath : OptionName → Bool
  | config => true
  | output => true
  | _ => false

def isRepeatable : OptionName → Bool
  | value => true
  | _ => false

/-- Options that every command has, and that may come before it. -/
def shared : List OptionName := [config, logLevel, help]

end OptionName

def optionsOf : Option CommandName → List OptionName
  | none => OptionName.shared
  | some .build => OptionName.shared ++ [.output, .dims, .parameter, .policy, .parallel]
  | some .update => OptionName.shared
  | some .inspect => OptionName.shared
  | some .lookup => OptionName.shared ++ [.value]

inductive UsageFault
  | unknownOption (text : String)
  | unknownCommand (text : String)
  | noCommand
  | noValue (option : OptionName)
  | needlessValue (option : OptionName)
  | repeated (option : OptionName)
  | emptyPath
  | missingOperand
  | extraOperand (text : String)
  | missingOption (option : OptionName)
deriving DecidableEq, Repr

def UsageFault.message : UsageFault → String
  | unknownOption text => s!"unexpected argument '{text}'"
  | unknownCommand text => s!"unrecognized subcommand '{text}'"
  | noCommand => "a subcommand is required"
  | noValue option => s!"a value is required for '--{option.text}'"
  | needlessValue option => s!"no value is expected for '--{option.text}'"
  | repeated option => s!"the argument '--{option.text}' cannot be used multiple times"
  | emptyPath => "a path cannot be empty"
  | missingOperand => "required arguments were not provided"
  | extraOperand text => s!"unexpected argument '{text}'"
  | missingOption option => s!"the argument '--{option.text}' was not provided"

inductive Stop
  | help
  | misuse (fault : UsageFault)
deriving DecidableEq, Repr

inductive Word
  | command (name : CommandName)
  | setting (option : OptionName) (value : String)
  | switch (option : OptionName)
  | operand (text : String)
deriving DecidableEq, Repr

inductive Reading
  | word (w : Word)
  /-- An option whose value is the next argument. -/
  | pending (option : OptionName)
  /-- The mark after which there are operands only. -/
  | mark
deriving DecidableEq, Repr

def OptionName.read (o : OptionName) (value : Option (List Char)) : Except Stop Reading :=
  match o.takesValue, value with
  | true, some value => .ok (.word (.setting o (String.ofList value)))
  | true, none => .ok (.pending o)
  | false, some _ => .error (.misuse (.needlessValue o))
  | false, none => if o = .help then .error .help else .ok (.word (.switch o))

/-- The value after a letter, with or without an equals sign. -/
def letterValue : List Char → Option (List Char)
  | [] => none
  | '=' :: value => some value
  | value => some value

/-- Reads an argument where `known` options may stand. What follows a letter without a value is not
looked at, since the only such letter asks for help. -/
def Reading.ofArgument (known : List OptionName) (arg : String) : Except Stop Reading :=
  let unknown : Except Stop Reading := .error (.misuse (.unknownOption arg))
  match arg.toList with
  | ['-', '-'] => .ok .mark
  | '-' :: '-' :: cs =>
    let (name, value) :=
      match Text.splitOnce? '=' cs with
      | some (name, value) => (name, some value)
      | none => (cs, none)
    match known.find? fun o => o.text.toList = name with
    | some o => o.read value
    | none => unknown
  | '-' :: c :: cs =>
    match known.find? fun o => o.letter? = some c with
    | some o => o.read (if o.takesValue then letterValue cs else none)
    | none => unknown
  | _ => .ok (.word (.operand arg))

def isValue (arg : String) : Bool :=
  match arg.toList with
  | '-' :: _ :: _ => false
  | _ => true

/-- What help is asked for: about all commands, about one, or about help. -/
def helpStop : List String → Stop
  | [] => .help
  | [name] =>
    if name = helpName || (CommandName.ofText? name).isSome then .help
    else .misuse (.unknownCommand name)
  | name :: topic :: _ =>
    if name = helpName || (CommandName.ofText? name).isSome then .misuse (.unknownCommand topic)
    else .misuse (.unknownCommand name)

def words (command : Option CommandName) : List String → Except Stop (List Word)
  | [] => .ok []
  | arg :: args => do
    match ← Reading.ofArgument (optionsOf command) arg, command, args with
    | .mark, some _, args => .ok (args.map .operand)
    | .mark, none, [] => .error (.misuse .noCommand)
    | .mark, none, arg :: _ => .error (.misuse (.unknownCommand arg))
    | .pending o, _, [] => .error (.misuse (.noValue o))
    | .pending o, command, value :: args =>
      if isValue value then
        (words command args).map (.setting o value :: ·)
      else .error (.misuse (.noValue o))
    | .word (.operand text), none, args =>
      if text = helpName then .error (helpStop args)
      else
        match CommandName.ofText? text with
        | some c => (words (some c) args).map (.command c :: ·)
        | none => .error (.misuse (.unknownCommand text))
    | .word w, command, args => (words command args).map (w :: ·)

end GribCatalog.CommandLine
