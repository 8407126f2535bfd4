/-
# What cannot be bound

The causes for which a declaration or a member is left out of the native surface, with their
wording and the report about each.
-/
import Interop.Diagnostic
import Interop.Model.EnumValue
import Interop.Model.Naming
import Interop.Model.SymbolTable

namespace Interop.Model

open Source

/-- What a native name can be claimed for. -/
inductive Claimant
  | enumType (path : TypePath)
  | classType (path : TypePath)
  | enumItem (path : TypePath) (item : String)
  | function (owner : TypePath) (member : String) (ordinal : Nat)
  | arrayType (element : ManagedType)
deriving DecidableEq

/-- A member as messages name it. -/
def memberLabel (owner : TypePath) (member : String) : String := owner.dotted ++ "::" ++ member

/-- The text by which messages name a claimant. -/
def Claimant.description : Claimant → String
  | enumType path => s!"enum '{path.dotted}'"
  | classType path => s!"class '{path.dotted}'"
  | enumItem path item => s!"enum item '{path.dotted}.{item}'"
  | function owner member _ => s!"'{memberLabel owner member}'"
  | arrayType element => s!"array typedef of '{element.text}'"

/-- A claimant as an owner of names. -/
def Claimant.toOwner (c : Claimant) : SymbolOwner Claimant := ⟨c, c.description⟩

/-- Why a type cannot be passed. -/
inductive UnsupportedReason
  | structHandle | byRefArray | voidValue | jaggedArray | generic | nullable | builtin
  | notPublic | staticClass | unbound | valueType
deriving DecidableEq

/-- The wording of a reason. -/
def UnsupportedReason.message : UnsupportedReason → String
  | structHandle => "value types cannot be exposed as handles"
  | byRefArray => "out and ref arrays are not supported"
  | voidValue => "'void' is only valid as a return type"
  | jaggedArray => "jagged arrays are not supported"
  | generic => "generic types are not supported"
  | nullable => "nullable types are not supported"
  | builtin => "no native representation"
  | notPublic => "type is not public"
  | staticClass => "static classes cannot be used as values"
  | unbound => "the type itself could not be bound"
  | valueType => "value types are not supported"

/-- What is wrong with an enum. -/
inductive EnumFault
  | notIntegral (found : String)
  | item (name : String) (fault : ExprFault)
  | outOfRange (name : String) (value : Int) (underlying : Primitive)
  | duplicateItem (name : String)
deriving DecidableEq

/-- The wording of a fault. -/
def EnumFault.message : EnumFault → String
  | notIntegral found => s!"underlying type must be an integral type, found '{found}'"
  | item name fault => s!"item '{name}': {fault.message}"
  | outOfRange name value underlying =>
    s!"item '{name}' = {value} does not fit in '{underlying.keyword}'"
  | duplicateItem name => s!"item '{name}' is declared twice"

/-- What is wrong with the base of a class. -/
inductive BaseFault
  | staticDerived | notClass | undeclared | notExposed | staticBase | circular
deriving DecidableEq

/-- The wording of a fault. -/
def BaseFault.message : BaseFault → String
  | staticDerived => "static classes cannot derive from another class"
  | notClass => "base type must be a class"
  | undeclared => "base class is not declared in this assembly"
  | notExposed => "base class is not exposed"
  | staticBase => "static classes cannot be derived from"
  | circular => "circular inheritance"

/-- Why a declaration or a member has no native form. -/
inductive BindingFault
  | nameCollision (symbol : String) (claimant existing : Claimant)
  | unsupportedType (member type : String) (reason : UnsupportedReason)
  | unknownType (member name : String) (suggestion : Option String)
  | duplicateType (path : TypePath)
  | invalidEnum (path : TypePath) (fault : EnumFault)
  | invalidBase (path : TypePath) (base : String) (fault : BaseFault)
  | staticClassMember (member : String) (path : TypePath)
  | invalidIdentifier (identifier member : String) (fault : NameFault)
deriving DecidableEq

/-- The wording of a fault. -/
def BindingFault.message : BindingFault → String
  | nameCollision symbol claimant existing =>
    s!"native symbol '{symbol}' for {claimant.description} collides with {existing.description}"
  | unsupportedType member type reason =>
    s!"{member}: unsupported type '{type}' ({reason.message})"
  | unknownType member name _ => s!"{member}: unknown type '{name}'"
  | duplicateType path => s!"duplicate type '{path.dotted}'"
  | invalidEnum path fault => s!"enum '{path.dotted}': {fault.message}"
  | invalidBase path base fault =>
    s!"class '{path.dotted}' cannot derive from '{base}': {fault.message}"
  | staticClassMember member path =>
    s!"{member}: static class '{path.dotted}' cannot have instance members or constructors"
  | invalidIdentifier identifier member fault =>
    s!"'{identifier}' for {member} is not a valid native identifier: {fault.message}"

/-- Tells whether the program ends with a fault. -/
def BindingFault.isFatal : BindingFault → Bool
  | invalidEnum _ (.item _ fault) => fault.isFatal
  | _ => false

/-- The label that a report about a fault puts at its place. -/
def BindingFault.label : BindingFault → String
  | nameCollision symbol _ _ => s!"would also be exported as '{symbol}'"
  | unsupportedType _ _ reason => reason.message
  | unknownType _ _ _ => "not declared in this assembly"
  | duplicateType _ => "declared more than once"
  | invalidEnum _ fault => fault.message
  | invalidBase _ _ fault => fault.message
  | staticClassMember _ _ => "no handle exists for a static class"
  | invalidIdentifier _ _ fault => fault.message

/-- The hint that a report about a fault ends with. -/
def BindingFault.help? : BindingFault → Option String
  | nameCollision symbol _ existing =>
    some s!"'{symbol}' is already taken by {existing.description}; rename one of the members"
  | unknownType _ _ (some name) => some s!"did you mean '{name}'?"
  | staticClassMember _ _ => some "mark the member 'static' or drop 'static' from the class"
  | _ => none

/-- A fault and the declaration that shows it. -/
structure BindingError where
  fault : BindingFault
  span : Span
deriving DecidableEq

/-- The report about an error. -/
def BindingError.toDiagnostic (e : BindingError) : Diagnostic :=
  ⟨.error, e.fault.message, e.span, some e.fault.label, e.fault.help?⟩

end Interop.Model
