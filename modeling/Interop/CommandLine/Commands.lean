/-
# What the commands do

Each command as a job: generating the files for a description, looking for errors in one, and
listing its native symbols.
-/
import Interop.C.Library
import Interop.CommandLine.Arguments
import Interop.CommandLine.Job
import Interop.Model.Binding
import Interop.Model.Filter
import Interop.Model.Listing
import Interop.Source.Parser

namespace Interop.CommandLine

open Source Model

/-- Why a command fails. -/
inductive CommandFault
  | filter (fault : FilterFault)
  | unreadable (path : String)
  | unparsable (path : String)
  | generator (fault : C.GeneratorFault)
  | folder (path : String)
  | unwritable (path : String)
  /-- Files were written, but not for everything. -/
  | leftOut (count : Nat)
  | unbound (count : Nat)
  /-- The program ended on the way. -/
  | ended (error : BindingError)

/-- The wording of a fault. -/
def CommandFault.message : CommandFault → String
  | filter fault => fault.message
  | unreadable path => s!"failed to read file: {path}"
  | unparsable path => s!"could not parse {path}"
  | generator fault => fault.message
  | folder path => s!"failed to create directory: {path}"
  | unwritable path => s!"failed to write file: {path}"
  | leftOut count => s!"{count} member(s) could not be bound and were left out"
  | unbound count => s!"{count} member(s) could not be bound"
  | ended error => error.fault.message

/-- The code that the program exits with. -/
def CommandFault.exitCode : CommandFault → UInt32
  | ended _ => 101
  | _ => 1

/-- A job of a command. -/
abbrev CommandJob := Job CommandFault

/-- A job that fails. -/
def fail (fault : CommandFault) : CommandJob := .done (some fault)

/-- Shows a report about each binding error. -/
def reportAll (errors : List BindingError) (file source : String) (next : CommandJob) :
    CommandJob :=
  errors.foldr (fun e next => .report e.toDiagnostic file source next) next

/-- Goes on with the model of a description, after reports about its binding errors. -/
def withModel (file : String) (next : BindingModel → CommandJob) : CommandJob :=
  .read file fun
    | none => fail (.unreadable file)
    | some source =>
      match Assembly.ofText source with
      | .error e => .report e.toDiagnostic file source (fail (.unparsable file))
      | .ok assembly =>
        match BindingModel.bind assembly with
        | .error e => fail (.ended e)
        | .ok m =>
          .log .info s!"bound {file}: {m.functions.length} functions, {m.errors.length} errors"
            (reportAll m.errors file source (next m))

/-- The path of a file in a folder. -/
def pathIn (folder name : String) : String :=
  if folder.toList.getLast? = some '/' then folder ++ name else folder ++ "/" ++ name

/-- Writes files to a folder, with a line for each. -/
def writeAll (folder : String) (files : List C.GeneratedFile) (next : CommandJob) : CommandJob :=
  files.foldr
    (fun file next =>
      let path := pathIn folder file.name
      .write path file.contents fun written =>
        if written then .print s!"  → Wrote {path}" next else fail (.unwritable path))
    next

/-- Writes the files for the types that a filter asks for.  All binding errors count, also those
of other types, but they keep no file from being written. -/
def generateJob (file output : String) (options : C.Options) (filters : List String) :
    CommandJob :=
  match TypeFilter.ofPatterns filters with
  | .error fault => fail (.filter fault)
  | .ok filter =>
    .print s!"Generating {file}" <| withModel file fun m =>
      let kept := filter.apply m
      let types := kept.classes.length + kept.enums.length
      .print s!"  → Bound {kept.functions.length} functions across {types} types" <|
        match C.generate options kept with
        | .error fault => fail (.generator fault)
        | .ok files =>
          .makeFolder output fun made =>
            if !made then fail (.folder output)
            else
              writeAll output files <|
                if m.errors.isEmpty then
                  .print s!"✓ Generated {files.length} files" (.done none)
                else fail (.leftOut m.errors.length)

/-- Counts what a description declares, if it has no errors. -/
def checkJob (file : String) : CommandJob :=
  withModel file fun m =>
    if m.errors.isEmpty then
      .print (s!"✓ {file}: {m.classes.length} classes, {m.enums.length} enums, " ++
        s!"{m.functions.length} functions") (.done none)
    else fail (.unbound m.errors.length)

/-- Lists the native symbols of the types that a filter asks for.  Binding errors do not make
the listing fail. -/
def symbolsJob (file : String) (json : Bool) (filters : List String) : CommandJob :=
  match TypeFilter.ofPatterns filters with
  | .error fault => fail (.filter fault)
  | .ok filter =>
    withModel file fun m =>
      let rows := (filter.apply m).rows
      let lines := if json then [listingJson rows] else listing rows
      lines.foldr (fun line next => .print line next) (.done none)

/-- What a command does. -/
def Command.job : Command → CommandJob
  | generate file output name support filters =>
    let chosen := C.Options.default
    let options := { chosen with
      libraryName := name.getD chosen.libraryName, supportFiles := support }
    generateJob file output options filters
  | check file => checkJob file
  | symbols file json filters => symbolsJob file json filters

end Interop.CommandLine
