/-
# Jobs

What a command does, step by step: it prints lines and reports, reads and writes files, and in
the end succeeds or fails.  What comes after a step may depend on its result.

Main definition: `Job.runIn` carries a job out in a folder in memory and records what it shows.
-/
import Interop.CommandLine.Folder
import Interop.Diagnostic
import Interop.Log

namespace Interop.CommandLine

/-- A job that can fail for the causes in `ε`. -/
inductive Job (ε : Type)
  | done (fault : Option ε)
  | print (line : String) (next : Job ε)
  /-- Shows a report about the source text of a file. -/
  | report (d : Diagnostic) (file source : String) (next : Job ε)
  | log (level : LogLevel) (event : String) (next : Job ε)
  /-- Reads a file, if it can be read. -/
  | read (path : String) (next : Option String → Job ε)
  /-- Makes sure that there is a folder, and tells whether that was possible. -/
  | makeFolder (path : String) (next : Bool → Job ε)
  /-- Writes a file, and tells whether that was possible. -/
  | write (path text : String) (next : Bool → Job ε)

/-- What a job shows and leaves behind. -/
structure Transcript (ε : Type) where
  lines : List String
  reports : List Diagnostic
  fault : Option ε
  folder : Folder

namespace Transcript

variable {ε : Type}

/-- The printed text. -/
def output (t : Transcript ε) : String := String.join (t.lines.map (· ++ "\n"))

end Transcript

namespace Job

variable {ε : Type}

/-- Carries a job out in a folder. -/
def runIn : Job ε → Folder → Transcript ε
  | done fault, f => ⟨[], [], fault, f⟩
  | print line next, f =>
    let t := next.runIn f
    { t with lines := line :: t.lines }
  | report d _ _ next, f =>
    let t := next.runIn f
    { t with reports := d :: t.reports }
  | log _ _ next, f => next.runIn f
  | read path next, f => (next (f.read? path)).runIn f
  | makeFolder path next, f =>
    match f.make? path with
    | some g => (next true).runIn g
    | none => (next false).runIn f
  | write path text next, f =>
    match f.write? path text with
    | some g => (next true).runIn g
    | none => (next false).runIn f

end Job

end Interop.CommandLine
