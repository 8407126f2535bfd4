/-
# Glob patterns

Patterns for texts: `*` stands for any characters, `?` for one, `[a-z]` and `[!a-z]` for one
of a set or one outside it, and `\x7ba,b\x7d` for one of some alternatives.  A backslash takes
the next character as it is.  Two stars that make up a whole piece of a text between slashes
stand for any number of pieces, none included.

Main definitions:
* `Glob.ofPattern` reads a pattern, in two steps: the marks that it is made of, then the parts
  that the marks make up;
* `Glob.accepts` tells whether a text has the form of a pattern.
-/
import Interop.Text.Glob.Match

namespace Interop.Text

/-- A pattern. -/
structure Glob where
  parts : List Glob.Part

namespace Glob

/-- Reads a pattern. -/
def ofPattern (pattern : String) : Except GlobFault Glob := do
  return ⟨← readParts none [] [] (← readMarks .outside pattern.toList)⟩

/-- Tells whether a text has the form of a pattern.  Two stars alone accept every text. -/
def accepts (g : Glob) (text : String) : Bool :=
  match g.parts with
  | [.folders] => true
  | parts => (leadAll text.toList parts (.start text.toList)).reachesEnd

end Glob

end Interop.Text
