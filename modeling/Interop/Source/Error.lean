/-
# Syntax errors

The causes for which a source text is refused, each with its wording, and the place where
it was found.
-/
import Interop.Diagnostic
import Interop.Source.Token

namespace Interop.Source

/-- Why a source text is refused. -/
inductive SyntaxFault
  /-- A character that starts no token. -/
  | unexpectedCharacter (c : Char)
  | unterminatedComment
  | invalidNumber
  /-- A literal of 2 ^ 64 or more. -/
  | integerTooLarge
  /-- Another token stands where `what` had to come. -/
  | expected (what : String) (found : Token)
  | multipleBases
  | nestedType
  /-- A member that starts with a word for a kind of member that has no native form. -/
  | unsupportedMember (word : Keyword)
  /-- An operator, recognised only after its return type. -/
  | operatorMember
  | field (name : String)
  | duplicateAccessor
  | noAccessor
  | defaultValue
deriving DecidableEq

/-- The wording of a fault. -/
def SyntaxFault.message : SyntaxFault → String
  | unexpectedCharacter c => s!"Unexpected character '{c}'"
  | unterminatedComment => "Unterminated block comment"
  | invalidNumber => "Invalid number literal"
  | integerTooLarge => "Integer literal does not fit in 64 bits"
  | expected what found => s!"Expected {what}, found {found.describe}"
  | multipleBases => "Multiple base types are not supported"
  | nestedType => "Nested types are not supported"
  | unsupportedMember word => s!"'{word.text}' declarations are not supported"
  | operatorMember => "operator declarations are not supported"
  | field name => s!"Fields are not supported; declare '{name}' as a property"
  | duplicateAccessor => "Duplicate property accessor"
  | noAccessor => "Property must declare at least one accessor"
  | defaultValue => "Default parameter values are not supported"

/-- A fault and the characters that show it. -/
structure SyntaxError where
  fault : SyntaxFault
  span : Span
deriving DecidableEq

/-- The wording of a syntax error as a message of its own. -/
def SyntaxError.message (e : SyntaxError) : String := s!"Syntax error: {e.fault.message}"

/-- The report about a syntax error. -/
def SyntaxError.toDiagnostic (e : SyntaxError) : Diagnostic :=
  ⟨.error, "syntax error", e.span, some e.fault.message, none⟩

end Interop.Source
