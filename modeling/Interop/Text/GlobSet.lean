/-
# Sets of patterns

Several patterns, for texts that have the form of any of them.  A pattern that asks for no more
than a certain beginning, end or last piece is compared directly.  The others become regular
expressions, whose nesting is limited: those that end in a dot and a fixed word one by one, for
texts with that end, and the rest together.

Main definitions:
* `Glob.method` is how texts are compared with a pattern;
* `GlobSet.ofGlobs` makes up a set, unless an expression is nested too deep;
* `GlobSet.accepts` tells whether a text has the form of a pattern of the set.
-/
import Interop.Text.Glob.Expression

namespace Interop.Text

namespace Glob

/-- How texts are compared with a pattern. -/
inductive Method
  | direct
  /-- By an expression of its own. -/
  | alone
  /-- By one expression for several patterns. -/
  | together
deriving DecidableEq

/-- Tells whether a part is a character that stands for itself. -/
def Part.isLiteral : Part → Bool
  | .literal _ => true
  | _ => false

/-- Tells whether a part stands for one character, and not for a slash. -/
def Part.staysInPiece : Part → Bool
  | .literal c => c != '/'
  | .oneOf s => !s.contains '/'
  | _ => false

/-- Tells whether parts are characters that stand for themselves, and not just a slash. -/
def isWord : List Part → Bool
  | [] | [.literal '/'] => false
  | parts => parts.all (·.isLiteral)

/-- Tells whether parts ask only for a certain beginning, or for a whole text. -/
def isBeginning (parts : List Part) : Bool :=
  match parts.getLast? with
  | none => false
  | some .anyText => !parts.dropLast.isEmpty && parts.dropLast.all (·.isLiteral)
  | some .inside => parts.dropLast.all (·.isLiteral)
  | some _ => parts.all (·.isLiteral)

/-- Tells whether parts ask only for a certain end. -/
def isEnding : List Part → Bool
  | .folders :: .anyText :: parts => isWord parts
  | .folders :: parts => !parts.isEmpty && parts.all (·.isLiteral)
  | .anyText :: parts => isWord parts
  | _ => false

/-- Tells whether parts ask only for a certain last piece. -/
def isLastPiece : List Part → Bool
  | .folders :: parts => !parts.isEmpty && parts.all (·.staysInPiece)
  | _ => false

/-- Tells whether parts end in a dot and characters that stand for themselves, without a slash
among them. -/
def hasExtension (parts : List Part) : Bool :=
  match parts.reverse.find? (fun
    | .literal c => c == '.' || c == '/'
    | _ => true) with
  | some (.literal '.') => true
  | _ => false

/-- How texts are compared with a pattern. -/
def method (g : Glob) : Method :=
  if isBeginning g.parts || isEnding g.parts || isLastPiece g.parts then .direct
  else if hasExtension g.parts then .alone
  else .together

/-- The most levels that an expression may have. -/
def nestingLimit : Nat := 250

/-- Tells whether the expression for a pattern has too many levels. -/
def isTooDeep (g : Glob) : Bool := nestingLimit < g.nesting

end Glob

/-- Why patterns make up no set. -/
inductive GlobSetFault
  /-- An expression that stands alone is nested too deep. -/
  | alone (expression : String)
  /-- Of the expressions that are taken together, the one with this number is nested too deep. -/
  | together (index : Nat)
deriving DecidableEq

/-- The wording of a fault.  An expression that stands alone is number 0. -/
def GlobSetFault.message : GlobSetFault → String
  | alone expression => s!"error parsing glob '{expression}': error parsing pattern 0"
  | together index => s!"error parsing pattern {index}"

/-- A set of patterns. -/
structure GlobSet where
  globs : List Glob

namespace GlobSet

/-- The set of some patterns.  Expressions that stand alone are looked at first. -/
def ofGlobs (globs : List Glob) : Except GlobSetFault GlobSet :=
  match globs.find? fun g => g.method = .alone && g.isTooDeep with
  | some g => .error (.alone g.expression)
  | none =>
    match (globs.filter (·.method = .together)).findIdx? (·.isTooDeep) with
    | some i => .error (.together i)
    | none => .ok ⟨globs⟩

/-- Tells whether a text has the form of a pattern of the set. -/
def accepts (s : GlobSet) (text : String) : Bool := s.globs.any (·.accepts text)

end GlobSet

end Interop.Text
