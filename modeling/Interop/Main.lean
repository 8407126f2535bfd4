/-
# The program

Reads the command line and carries the command out.  Output goes to the standard output, reports,
log lines and the cause of a failure to the standard error.  The program ends with 1 when the
command failed, with 2 when the arguments made up no command, and with 101 when it could not go on.
-/
import Interop.CommandLine.Commands
import Interop.Report

namespace Interop.CommandLine

open Interop

/-- A log line. -/
def logLine (options : LogOptions) (level : LogLevel) (event : String) : String :=
  match options.format with
  | .json =>
    let quoted (s : String) : String := String.ofList (Text.Json.quoted s)
    s!"\x7b\"level\":{quoted level.heading},\"message\":{quoted event}\x7d"
  | .auto | .text => s!"{level.heading} {event}"

/-- Carries a job out. -/
def perform (options : LogOptions) : CommandJob → IO (Option CommandFault)
  | .done fault => return fault
  | .print line next => do
    IO.println line
    perform options next
  | .report d file source next => do
    IO.eprint (d.render file source)
    perform options next
  | .log level event next => do
    if level.within options.level then IO.eprintln (logLine options level event)
    perform options next
  | .read path next => do
    let text ← try some <$> IO.FS.readFile path catch _ => pure none
    perform options (next text)
  | .makeFolder path next => do
    let made ← try IO.FS.createDirAll path; pure true catch _ => pure false
    perform options (next made)
  | .write path text next => do
    let written ← try IO.FS.writeFile path text; pure true catch _ => pure false
    perform options (next written)

end Interop.CommandLine

open Interop CommandLine in
/-- Reads the arguments and carries the command out. -/
def main (arguments : List String) : IO UInt32 := do
  match Invocation.ofArguments arguments with
  | .error fault =>
    IO.eprintln s!"error: {fault.message}"
    return 2
  | .ok invocation =>
    let environment := LogSettings.ofEnvironment
      (← IO.getEnv "M2N_LOG_FORMAT") (← IO.getEnv "M2N_LOG_LEVEL")
    let options := LogOptions.ofSettings (environment.override invocation.log)
    match ← perform options invocation.command.job with
    | none => return 0
    | some fault =>
      IO.eprintln s!"error: {fault.message}"
      return fault.exitCode
