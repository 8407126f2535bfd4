/-
# Arguments of the command line

The commands with their flags, and how arguments are read.  A flag takes its value from the same
argument or from the next one; flags and the file may come in any order, and after `--` nothing
is a flag.  The log flags may also come before the command.

Main definition: `Invocation.ofArguments`.
-/
import Interop.Log

namespace Interop.CommandLine

/-- A flag. -/
inductive Flag
  | logLevel | logFormat | output | name | noSupport | filter | json
deriving DecidableEq

namespace Flag

/-- All flags. -/
def all : List Flag := [logLevel, logFormat, output, name, noSupport, filter, json]

/-- The word for a flag, which is written after two dashes. -/
def word : Flag → String
  | logLevel => "log-level"
  | logFormat => "log-format"
  | output => "output"
  | name => "name"
  | noSupport => "no-support"
  | filter => "filter"
  | json => "json"

/-- The letter for a flag, which is written after one dash. -/
def letter? : Flag → Option Char
  | output => some 'o'
  | filter => some 'f'
  | _ => none

/-- Tells whether a flag has a value.  Every flag with a letter has one. -/
def takesValue : Flag → Bool
  | noSupport | json => false
  | _ => true

/-- Tells whether a flag may be given more than once. -/
def repeats : Flag → Bool
  | filter => true
  | _ => false

/-- The flags that every command has. -/
def shared : List Flag := [logLevel, logFormat]

end Flag

/-- The name of a command. -/
inductive CommandName
  | generate | check | symbols
deriving DecidableEq

namespace CommandName

/-- The word for a command. -/
def word : CommandName → String
  | generate => "generate"
  | check => "check"
  | symbols => "symbols"

/-- The command that a word stands for. -/
def ofWord? (s : String) : Option CommandName := [generate, check, symbols].find? (·.word = s)

/-- The flags of a command. -/
def flags : CommandName → List Flag
  | generate => Flag.shared ++ [.output, .name, .noSupport, .filter]
  | check => Flag.shared
  | symbols => Flag.shared ++ [.json, .filter]

end CommandName

/-- Why arguments make up no command. -/
inductive UsageFault
  | noCommand
  | unknownCommand (word : String)
  | unknownFlag (argument : String)
  | missingValue (f : Flag)
  | unwantedValue (f : Flag)
  | repeatedFlag (f : Flag)
  | missingFile
  | extraArgument (argument : String)
  | emptyPath
  | log (fault : LogFault)
deriving DecidableEq

/-- The wording of a fault. -/
def UsageFault.message : UsageFault → String
  | noCommand => "a command is required: generate, check or symbols"
  | unknownCommand word => s!"unrecognized command '{word}'"
  | unknownFlag argument => s!"unexpected argument '{argument}'"
  | missingValue f => s!"a value is required for '--{f.word}'"
  | unwantedValue f => s!"'--{f.word}' takes no value"
  | repeatedFlag f => s!"'--{f.word}' cannot be used multiple times"
  | missingFile => "a file is required"
  | extraArgument argument => s!"unexpected argument '{argument}'"
  | emptyPath => "a path cannot be empty"
  | log fault => fault.message

/-- What an argument is, on its own. -/
inductive Argument
  | operand
  /-- A flag with its value; the value of a flag that takes none is empty. -/
  | given (f : Flag) (value : String)
  /-- A flag whose value is the next argument. -/
  | awaiting (f : Flag)
deriving DecidableEq

/-- Tells whether an argument looks like a flag.  A lone dash does not. -/
def isDashed (argument : String) : Bool :=
  match argument.toList with
  | '-' :: _ :: _ => true
  | _ => false

/-- Reads a flag that is written as a word, with its value after an equals sign if it has one. -/
def readWord (flags : List Flag) (text : List Char) : Except UsageFault Argument :=
  let word := String.ofList (text.takeWhile (· ≠ '='))
  match flags.find? (·.word = word), text.dropWhile (· ≠ '=') with
  | none, _ => .error (.unknownFlag ("--" ++ word))
  | some f, [] => .ok (if f.takesValue then .awaiting f else .given f "")
  | some f, _ :: value =>
    if f.takesValue then .ok (.given f (String.ofList value)) else .error (.unwantedValue f)

/-- Reads a flag that is written as a letter, with its value after it, with or without an equals
sign. -/
def readLetter (flags : List Flag) (letter : Char) (rest : List Char) :
    Except UsageFault Argument :=
  match flags.find? (·.letter? = some letter), rest with
  | none, _ => .error (.unknownFlag ("-" ++ letter.toString))
  | some f, [] => .ok (.awaiting f)
  | some f, '=' :: value => .ok (.given f (String.ofList value))
  | some f, value => .ok (.given f (String.ofList value))

/-- Reads an argument on its own. -/
def readArgument (flags : List Flag) (argument : String) : Except UsageFault Argument :=
  match argument.toList with
  | '-' :: '-' :: text => readWord flags text
  | '-' :: letter :: rest => readLetter flags letter rest
  | _ => .ok .operand

/-- The values of flags, in order, and the other arguments. -/
structure Arguments where
  values : List (Flag × String)
  operands : List String
deriving DecidableEq

namespace Arguments

/-- No arguments. -/
def empty : Arguments := ⟨[], []⟩

/-- One more value of a flag, before the others. -/
def withValue (f : Flag) (value : String) (a : Arguments) : Arguments :=
  { a with values := (f, value) :: a.values }

/-- One more operand, before the others. -/
def withOperand (operand : String) (a : Arguments) : Arguments :=
  { a with operands := operand :: a.operands }

/-- Reads arguments, all of them or up to the first operand.  In front of a command there is
nothing to protect from being a flag, so that `--` is an operand there. -/
def read (flags : List Flag) (toOperand : Bool) : List String → Except UsageFault Arguments
  | [] => .ok .empty
  | argument :: rest =>
    if argument = "--" then .ok ⟨[], if toOperand then argument :: rest else rest⟩
    else
      match readArgument flags argument with
      | .error fault => .error fault
      | .ok .operand =>
        if toOperand then .ok ⟨[], argument :: rest⟩
        else (read flags toOperand rest).map (withOperand argument)
      | .ok (.given f value) => (read flags toOperand rest).map (withValue f value)
      | .ok (.awaiting f) =>
        match rest with
        | [] => .error (.missingValue f)
        | value :: rest =>
          if isDashed value then .error (.missingValue f)
          else (read flags toOperand rest).map (withValue f value)

/-- The values of a flag. -/
def valuesOf (a : Arguments) (f : Flag) : List String :=
  a.values.filterMap fun (g, value) => if g = f then some value else none

/-- The value of a flag. -/
def value? (a : Arguments) (f : Flag) : Option String := (a.valuesOf f).head?

/-- Tells whether a flag is given. -/
def has (a : Arguments) (f : Flag) : Bool := (a.value? f).isSome

/-- Checks that no flag is given too often. -/
def checkRepeats (a : Arguments) : Except UsageFault Unit :=
  match Flag.all.find? fun f => !f.repeats && 1 < (a.valuesOf f).length with
  | some f => .error (.repeatedFlag f)
  | none => .ok ()

/-- The log settings among the flags. -/
def logSettings (a : Arguments) : Except UsageFault LogSettings :=
  (LogSettings.ofFlags (a.value? .logFormat) (a.value? .logLevel)).mapError .log

/-- The only operand, as a path. -/
def file (a : Arguments) : Except UsageFault String :=
  match a.operands with
  | [] => .error .missingFile
  | [""] => .error .emptyPath
  | [file] => .ok file
  | _ :: extra :: _ => .error (.extraArgument extra)

end Arguments

/-- A command. -/
inductive Command
  /-- Writes the files for a description to a folder. -/
  | generate (file output : String) (name : Option String) (support : Bool)
      (filters : List String)
  /-- Looks for errors in a description. -/
  | check (file : String)
  /-- Lists the native symbols of a description. -/
  | symbols (file : String) (json : Bool) (filters : List String)
deriving DecidableEq

/-- The command that is made up by its arguments. -/
def CommandName.command (n : CommandName) (a : Arguments) : Except UsageFault Command := do
  let file ← a.file
  match n with
  | generate =>
    let output := (a.value? .output).getD "."
    if output = "" then throw .emptyPath
    return .generate file output (a.value? .name) (!a.has .noSupport) (a.valuesOf .filter)
  | check => return .check file
  | symbols => return .symbols file (a.has .json) (a.valuesOf .filter)

/-- A command and the log settings that go with it. -/
structure Invocation where
  log : LogSettings
  command : Command

namespace Invocation

/-- Reads all arguments.  Log flags after the command win over those before it. -/
def ofArguments (arguments : List String) : Except UsageFault Invocation := do
  let outer ← Arguments.read Flag.shared true arguments
  match outer.operands with
  | [] => throw .noCommand
  | word :: rest =>
    match CommandName.ofWord? word with
    | none => throw (.unknownCommand word)
    | some n =>
      let inner ← Arguments.read n.flags false rest
      outer.checkRepeats
      inner.checkRepeats
      return ⟨(← outer.logSettings).override (← inner.logSettings), ← n.command inner⟩

end Invocation

end Interop.CommandLine
