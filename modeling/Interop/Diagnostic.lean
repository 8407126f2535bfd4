/-
# Reports about a source text

A message about a piece of a source text, with an optional label at that piece and an
optional hint.
-/
import Interop.Span

namespace Interop

/-- How bad what a report says is. -/
inductive Severity
  | error | warning
deriving DecidableEq

/-- The word that a report of a severity starts with. -/
def Severity.heading : Severity → String
  | error => "Error"
  | warning => "Warning"

/-- A message about a piece of a source text. -/
structure Diagnostic where
  severity : Severity
  message : String
  span : Span
  label : Option String
  help : Option String
deriving DecidableEq

namespace Diagnostic

/-- An error without label and hint. -/
def error (message : String) (span : Span) : Diagnostic := ⟨.error, message, span, none, none⟩

end Diagnostic

end Interop
