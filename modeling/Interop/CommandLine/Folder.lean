/-
# A folder in memory

A tree of text files and folders, in which a program works.  Paths are relative to the folder
and may lead out of it; nothing is known about what is there, but folders and files can be made
there too.

Main definitions:
* `Folder.read?` is the text of a file;
* `Folder.make?` makes a folder, and the folders on the way to it;
* `Folder.write?` writes a file to a folder that exists.
-/
import Interop.Table

namespace Interop.CommandLine

/-- A place in a folder or outside: so many folders up, and from there down along some names. -/
structure Place where
  up : Nat
  names : List String
deriving DecidableEq

namespace Place

/-- The folder itself. -/
def here : Place := ⟨0, []⟩

/-- The place of a name in a folder. -/
def child (p : Place) (name : String) : Place := { p with names := p.names ++ [name] }

/-- The folder that a folder is in. -/
def parent (p : Place) : Place :=
  if p.names.isEmpty then { p with up := p.up + 1 } else { p with names := p.names.dropLast }

@[simp]
theorem parent_child (p : Place) (name : String) : (p.child name).parent = p := by
  simp [parent, child]

/-- The path of a place in the folder. -/
def path (p : Place) : String := "/".intercalate p.names

end Place

/-- The most bytes of a name. -/
def nameLimit : Nat := 255

/-- The most bytes of a path. -/
def pathLimit : Nat := 4095

/-- The steps of a relative path.  A step is a name, or empty or a dot to stay, or two dots to
leave a folder. -/
def stepsOf? (path : String) : Option (List String) :=
  if path.isEmpty || path.startsWith "/" || pathLimit < path.utf8ByteSize then none
  else some ((path.toList.splitOn '/').map String.ofList)

/-- Tells whether a step stays where it is. -/
def staysAt (step : String) : Bool := step == "" || step == "."

/-- Text files by their places, and the folders that were made. -/
structure Folder where
  files : Table Place String
  folders : List Place

namespace Folder

/-- The folder without files. -/
def empty : Folder := ⟨.empty, []⟩

/-- Tells whether there is a file at a place. -/
def isFile (f : Folder) (p : Place) : Bool := (f.files.get? p).isSome

/-- Tells whether there is a folder at a place.  The folders around this one exist. -/
def isFolder (f : Folder) (p : Place) : Bool := p.names.isEmpty || f.folders.contains p

/-- Follows steps from a place on.  All folders on the way have to exist. -/
def follow (f : Folder) (p : Place) : List String → Option Place
  | [] => some p
  | step :: steps =>
    if !f.isFolder p then none
    else if staysAt step then f.follow p steps
    else if step = ".." then f.follow p.parent steps
    else if nameLimit < step.utf8ByteSize then none
    else f.follow (p.child step) steps

/-- The place that a path leads to. -/
def resolve? (f : Folder) (path : String) : Option Place :=
  (stepsOf? path).bind (f.follow .here)

/-- The text of a file. -/
def read? (f : Folder) (path : String) : Option String := (f.resolve? path).bind f.files.get?

/-- Follows steps from a folder on, and makes the folders on the way that do not exist. -/
def makeAlong (f : Folder) (p : Place) : List String → Option Folder
  | [] => some f
  | step :: steps =>
    if staysAt step then f.makeAlong p steps
    else if step = ".." then f.makeAlong p.parent steps
    else if nameLimit < step.utf8ByteSize || f.isFile (p.child step) then none
    else
      let g := if f.isFolder (p.child step) then f else { f with folders := p.child step :: f.folders }
      g.makeAlong (p.child step) steps

/-- Makes a folder, and those on the way to it.  A path that ends in a dot names a folder by
what it contains: only the folders on the way to it are made, and then it has to exist. -/
def make? (f : Folder) (path : String) : Option Folder := do
  let steps := (← stepsOf? path).filter (· ≠ "")
  if steps.getLast? = some "." then
    let moves := steps.filter (· ≠ ".")
    let g ← f.makeAlong .here moves.dropLast
    if (← g.follow .here moves) |> g.isFolder then some g else none
  else f.makeAlong .here steps

/-- Writes a file, in place of any that was there. -/
def write? (f : Folder) (path text : String) : Option Folder := do
  let p ← f.resolve? path
  if f.isFolder p then none else some { f with files := f.files.set p text }

/-- Writes a file and makes the folders on the way to it. -/
def plant? (f : Folder) (path text : String) : Option Folder := do
  let g ← f.makeAlong .here (← stepsOf? path).dropLast
  g.write? path text

/-- The folder with some files. -/
def ofFiles (files : List (String × String)) : Folder :=
  files.foldl (fun f (path, text) => (f.plant? path text).getD f) .empty

/-- The files in another folder that this one does not have, by their paths. -/
def added (f g : Folder) : List (String × String) :=
  (g.files.entries.filter fun (p, _) => p.up = 0 && !f.isFile p).map fun (p, text) => (p.path, text)

end Folder

end Interop.CommandLine
