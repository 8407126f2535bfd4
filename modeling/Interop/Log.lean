/-
# Log settings

How much is logged, and in which form.  Flags win over the environment, and the environment
over the defaults.  A flag with an unknown value is refused, an environment variable with one
is ignored.
-/

namespace Interop

/-- A form of log lines. -/
inductive LogFormat
  /-- Whatever suits the terminal. -/
  | auto
  | text
  | json
deriving DecidableEq

/-- The word for a form. -/
def LogFormat.name : LogFormat → String
  | auto => "auto"
  | text => "text"
  | json => "json"

/-- The form that a word stands for, in any case. -/
def LogFormat.ofText? (s : String) : Option LogFormat :=
  match s.toLower with
  | "auto" => some auto
  | "text" | "plain" => some text
  | "json" => some json
  | _ => none

/-- How important an event is that is logged. -/
inductive LogLevel
  | error | warn | info | debug | trace
deriving DecidableEq

namespace LogLevel

/-- The word for a level. -/
def name : LogLevel → String
  | error => "error"
  | warn => "warn"
  | info => "info"
  | debug => "debug"
  | trace => "trace"

/-- The word for a level in log lines. -/
def heading (l : LogLevel) : String := l.name.toUpper

/-- The level that a word stands for, in any case. -/
def ofText? (s : String) : Option LogLevel :=
  match s.toLower with
  | "error" | "err" => some error
  | "warn" | "warning" => some warn
  | "info" => some info
  | "debug" => some debug
  | "trace" | "verbose" => some trace
  | _ => none

/-- The place of a level among all, the most important one first. -/
def rank : LogLevel → Nat
  | error => 0
  | warn => 1
  | info => 2
  | debug => 3
  | trace => 4

/-- Tells whether events of a level are logged when `limit` is the level that is asked for. -/
def within (l limit : LogLevel) : Bool := l.rank ≤ limit.rank

end LogLevel

/-- The value of a flag that stands for nothing. -/
inductive LogFault
  | unknownFormat (text : String)
  | unknownLevel (text : String)
deriving DecidableEq

/-- The wording of a fault. -/
def LogFault.message : LogFault → String
  | unknownFormat text => s!"unknown log format '{text}'"
  | unknownLevel text => s!"unknown log level '{text}'"

/-- Settings that are not all given. -/
structure LogSettings where
  format : Option LogFormat
  level : Option LogLevel
deriving DecidableEq

namespace LogSettings

/-- The settings that flags give.  A wrong format is reported before a wrong level. -/
def ofFlags (format level : Option String) : Except LogFault LogSettings := do
  let format ← format.mapM fun s =>
    match LogFormat.ofText? s with
    | some f => .ok f
    | none => .error (.unknownFormat s)
  let level ← level.mapM fun s =>
    match LogLevel.ofText? s with
    | some l => .ok l
    | none => .error (.unknownLevel s)
  return ⟨format, level⟩

/-- The settings that the environment gives. -/
def ofEnvironment (format level : Option String) : LogSettings :=
  ⟨format.bind LogFormat.ofText?, level.bind LogLevel.ofText?⟩

/-- The settings of both, those of the second first. -/
def override (base s : LogSettings) : LogSettings :=
  ⟨s.format.or base.format, s.level.or base.level⟩

end LogSettings

/-- All settings. -/
structure LogOptions where
  format : LogFormat
  level : LogLevel
deriving DecidableEq

namespace LogOptions

/-- Only warnings and errors, so that the output of a command stays readable. -/
def default : LogOptions := ⟨.auto, .warn⟩

/-- The given settings, and the defaults where there are none. -/
def ofSettings (s : LogSettings) : LogOptions :=
  ⟨s.format.getD default.format, s.level.getD default.level⟩

end LogOptions

end Interop
