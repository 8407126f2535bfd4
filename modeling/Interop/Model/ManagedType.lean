/-
# The types that cross the boundary

A closed set: nothing, the primitive types, text, enums, objects (by handle) and arrays of
one dimension.  Every native name, C type and conversion is chosen by one of these.
-/
import Interop.Primitive
import Interop.Model.TypePath

namespace Interop.Model

/-- A type that can cross the boundary. -/
inductive ManagedType
  | void
  | primitive (p : Primitive)
  | string
  | enum (path : TypePath)
  | object (path : TypePath)
  | array (element : ManagedType)
deriving DecidableEq

namespace ManagedType

/-- The element type of an array type. -/
def element? : ManagedType → Option ManagedType
  | array element => some element
  | _ => none

/-- The declared type that a type refers to, also as an element. -/
def namedPath? : ManagedType → Option TypePath
  | enum path | object path => some path
  | array element => element.namedPath?
  | _ => none

/-- The text of a type in signatures and messages. -/
def text : ManagedType → String
  | void => "void"
  | primitive p => p.keyword
  | string => "string"
  | enum path | object path => path.dotted
  | array element => element.text ++ "[]"

end ManagedType

end Interop.Model
