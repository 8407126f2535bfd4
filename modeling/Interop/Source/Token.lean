/-
# Tokens of the declaration language

The vocabulary of declaration files: keywords, identifiers, integer literals, punctuation
and the end of the file, with the form in which messages name each of them.
-/
import Interop.Span

namespace Interop.Source

/-- A word that cannot be used as a name. -/
inductive Keyword
  | usingKw | namespaceKw | classKw | structKw | enumKw
  | publicKw | privateKw | protectedKw | internalKw
  | staticKw | sealedKw | abstractKw | virtualKw | overrideKw | readonlyKw
  | voidKw | outKw | refKw | inKw | getKw | setKw | operatorKw | eventKw
deriving DecidableEq

namespace Keyword

/-- The spelling of a keyword. -/
def text : Keyword → String
  | usingKw => "using" | namespaceKw => "namespace" | classKw => "class"
  | structKw => "struct" | enumKw => "enum" | publicKw => "public"
  | privateKw => "private" | protectedKw => "protected" | internalKw => "internal"
  | staticKw => "static" | sealedKw => "sealed" | abstractKw => "abstract"
  | virtualKw => "virtual" | overrideKw => "override" | readonlyKw => "readonly"
  | voidKw => "void" | outKw => "out" | refKw => "ref" | inKw => "in"
  | getKw => "get" | setKw => "set" | operatorKw => "operator" | eventKw => "event"

/-- All keywords. -/
def all : List Keyword :=
  [usingKw, namespaceKw, classKw, structKw, enumKw, publicKw, privateKw, protectedKw,
   internalKw, staticKw, sealedKw, abstractKw, virtualKw, overrideKw, readonlyKw, voidKw,
   outKw, refKw, inKw, getKw, setKw, operatorKw, eventKw]

/-- The keyword with the given spelling. -/
def ofText? (s : String) : Option Keyword := all.find? (·.text == s)

theorem ofText?_text (k : Keyword) : ofText? k.text = some k := by
  cases k <;> decide +kernel

end Keyword

/-- Operators and punctuation. -/
inductive Symbol
  | assign | minus | pipe | shiftLeft | less | greater | question
  | leftParen | rightParen | leftBrace | rightBrace | leftBracket | rightBracket
  | semicolon | comma | colon | dot
deriving DecidableEq

/-- The spelling of a symbol. -/
def Symbol.text : Symbol → String
  | assign => "=" | minus => "-" | pipe => "|" | shiftLeft => "<<" | less => "<"
  | greater => ">" | question => "?" | leftParen => "(" | rightParen => ")"
  | leftBrace => "\x7b" | rightBrace => "\x7d" | leftBracket => "[" | rightBracket => "]"
  | semicolon => ";" | comma => "," | colon => ":" | dot => "."

/-- A token.  Literals are kept as 64-bit words, the widest an enum item can hold. -/
inductive Token
  | keyword (k : Keyword)
  | ident (name : String)
  | integer (value : UInt64)
  | symbol (s : Symbol)
  | endOfFile
deriving DecidableEq

/-- The form in which messages name a token. -/
def Token.describe : Token → String
  | keyword k => s!"'{k.text}'"
  | ident name => s!"identifier '{name}'"
  | integer value => s!"integer {value.toNat}"
  | symbol s => s!"'{s.text}'"
  | endOfFile => "end of file"

/-- A token with the place where it stands. -/
structure Lexeme where
  token : Token
  span : Span
deriving DecidableEq

end Interop.Source
