/-
# Filters for types

The types that a user asks for, by patterns for their full names.  A pattern without wildcards
asks also for all types in the namespace of that name.

Main definitions:
* `TypeFilter.ofPatterns` reads the patterns of a filter;
* `TypeFilter.apply` is the part of a model that a filter asks for.
-/
import Interop.Model.Selection
import Interop.Text.GlobSet

namespace Interop.Model

open Text

/-- Why a list of patterns is no filter. -/
inductive FilterFault
  /-- A pattern of the user is wrong. -/
  | pattern (text : String)
  /-- A pattern that was made from one of the user's is wrong. -/
  | nested (text : String) (fault : GlobFault)
  /-- The patterns are right, but make up no set. -/
  | set (fault : GlobSetFault)
deriving DecidableEq

/-- The wording of a fault. -/
def FilterFault.message : FilterFault → String
  | pattern text => s!"invalid filter pattern: {text}"
  | nested text fault => s!"error parsing glob '{text}': {fault.message}"
  | set fault => fault.message

/-- A filter. -/
inductive TypeFilter
  | everything
  /-- The types whose names have the form of one of some patterns. -/
  | anyOf (globs : GlobSet)

namespace TypeFilter

/-- The characters that make a pattern more than a plain name. -/
def wildcards : List Char := ['*', '?', '[', '\x7b']

/-- Tells whether a pattern has no wildcards. -/
def isPlain (pattern : String) : Bool := pattern.toList.all fun c => !wildcards.contains c

/-- The pattern for all names below a plain one. -/
def below (pattern : String) : String := pattern ++ ".*"

/-- The patterns that one of the user's stands for. -/
def globsOf (pattern : String) : Except FilterFault (List Glob) := do
  let nested ←
    if isPlain pattern then
      match Glob.ofPattern (below pattern) with
      | .ok g => .ok [g]
      | .error fault => .error (.nested (below pattern) fault)
    else .ok []
  match Glob.ofPattern pattern with
  | .ok g => .ok (nested ++ [g])
  | .error _ => .error (.pattern pattern)

/-- Reads a filter.  Without patterns it asks for everything. -/
def ofPatterns : List String → Except FilterFault TypeFilter
  | [] => .ok .everything
  | patterns => do
    match GlobSet.ofGlobs (← patterns.mapM globsOf).flatten with
    | .ok globs => return .anyOf globs
    | .error fault => throw (.set fault)

/-- Tells whether a filter asks for a type. -/
def accepts (f : TypeFilter) (path : TypePath) : Bool :=
  match f with
  | everything => true
  | anyOf globs => globs.accepts path.dotted

/-- The part of a model that a filter asks for. -/
def apply (f : TypeFilter) (m : BindingModel) : BindingModel := m.select f.accepts

end TypeFilter

end Interop.Model
