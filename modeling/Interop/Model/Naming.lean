/-
# Native names

The flat C names of types, members, enum items and array types, and the rule that says which
names may be used in generated code.
-/
import Interop.Model.ManagedType
import Interop.Source.Lexer

namespace Interop.Model

/-- The native name of a declared type: its segments with underscores between them. -/
def TypePath.symbol (p : TypePath) : String := "_".intercalate p.segments

/-- The native name of a member.  Of several members of one name, each but the first has its
ordinal as a suffix. -/
def TypePath.memberSymbol (p : TypePath) (member : String) (ordinal : Nat) : String :=
  let symbol := p.symbol ++ "_" ++ member
  if ordinal = 0 then symbol else symbol ++ "_" ++ toString ordinal

/-- The native name of an enum item. -/
def TypePath.itemSymbol (p : TypePath) (item : String) : String := p.symbol ++ "_" ++ item

/-- The native name of the type of arrays with the given elements, as in `_Int32Array`. -/
def ManagedType.arraySymbol (element : ManagedType) : String :=
  let stem :=
    match element with
    | .void => "Void"
    | .primitive p => p.capitalized
    | .string => "String"
    | .enum path | .object path => path.symbol
    | .array inner => inner.arraySymbol
  "_" ++ stem ++ "Array"

/-- The reserved words of C. -/
def cKeywords : List String :=
  ["auto", "bool", "break", "case", "char", "const", "continue", "default", "do", "double",
   "else", "enum", "extern", "false", "float", "for", "goto", "if", "inline", "int", "long",
   "register", "restrict", "return", "short", "signed", "sizeof", "static", "struct", "switch",
   "true", "typedef", "union", "unsigned", "void", "volatile", "while", "_Alignas", "_Alignof",
   "_Atomic", "_Bool", "_Complex", "_Generic", "_Imaginary", "_Noreturn", "_Static_assert",
   "_Thread_local"]

/-- The words that C++ reserves and C does not.  Generated headers serve both. -/
def cppKeywords : List String :=
  ["alignas", "alignof", "and", "and_eq", "asm", "bitand", "bitor", "catch", "char8_t",
   "char16_t", "char32_t", "class", "compl", "concept", "consteval", "constexpr", "constinit",
   "const_cast", "co_await", "co_return", "co_yield", "decltype", "delete", "dynamic_cast",
   "explicit", "export", "friend", "mutable", "namespace", "new", "noexcept", "not", "not_eq",
   "nullptr", "operator", "or", "or_eq", "private", "protected", "public", "reinterpret_cast",
   "requires", "static_assert", "static_cast", "template", "this", "thread_local", "throw",
   "try", "typeid", "typename", "using", "virtual", "wchar_t", "xor", "xor_eq"]

/-- Why a name may not be used in generated code. -/
inductive NameFault
  | malformed
  | cKeyword
  | cppKeyword
  /-- Two underscores at the start: kept for names inside generated functions. -/
  | reservedForLocals
  /-- The beginnings of the names of the runtime's own interface. -/
  | reservedForRuntime
deriving DecidableEq

/-- The wording of a fault. -/
def NameFault.message : NameFault → String
  | malformed => "not a valid C identifier"
  | cKeyword => "reserved C keyword"
  | cppKeyword => "reserved C++ keyword"
  | reservedForLocals => "names starting with '__' are reserved for generated code"
  | reservedForRuntime => "the m2n prefix is reserved for the runtime"

/-- Tells whether a text has the form of a C identifier. -/
def isIdentifier (name : String) : Bool :=
  match name.toList with
  | [] => false
  | c :: cs => Source.isWordStart c && cs.all Source.isWordChar

/-- Tells whether a text begins with another. -/
def beginsWith (name start : String) : Bool := start.toList.isPrefixOf name.toList

/-- What is wrong with a name, if anything; the first fault that applies. -/
def nameFault? (name : String) : Option NameFault :=
  if !isIdentifier name then some .malformed
  else if cKeywords.contains name then some .cKeyword
  else if cppKeywords.contains name then some .cppKeyword
  else if beginsWith name "__" then some .reservedForLocals
  else if ["m2n_", "M2n", "M2N_"].any (beginsWith name) then some .reservedForRuntime
  else none

end Interop.Model
