/-
# The tree of a declaration file

Namespaces with the types they declare: classes and structs with their public and other
members, and enums with the constant expressions of their items.  Members have no bodies.
-/
import Interop.Primitive
import Interop.Span

namespace Interop.Source

/-- Who may use a declaration. -/
inductive Visibility
  | publicAccess | internalAccess | protectedAccess | privateAccess
deriving DecidableEq

/-- An attribute in front of a declaration; its arguments have no native meaning. -/
structure Attribute where
  name : String
  span : Span

/-- A name of one or more segments, written with dots between them. -/
structure DottedName where
  segments : List String
  span : Span

/-- A dotted name as it is written. -/
def DottedName.text (n : DottedName) : String := ".".intercalate n.segments

/-- A type as it is written. -/
inductive TypeExpr
  | void
  | primitive (p : Primitive)
  | string
  | named (name : DottedName)
  | array (element : TypeExpr)
  | generic (name : DottedName) (args : List TypeExpr)
  | nullable (inner : TypeExpr)

mutual

/-- The text of a type, by which messages name it. -/
def TypeExpr.text : TypeExpr → String
  | .void => "void"
  | .primitive p => p.keyword
  | .string => "string"
  | .named name => name.text
  | .array element => element.text ++ "[]"
  | .generic name args => name.text ++ "<" ++ ", ".intercalate (TypeExpr.texts args) ++ ">"
  | .nullable inner => inner.text ++ "?"

/-- The texts of the members of a list of types. -/
def TypeExpr.texts : List TypeExpr → List String
  | [] => []
  | t :: ts => t.text :: TypeExpr.texts ts

end

/-- A constant expression, the value of an enum item.  A parenthesised expression is the
expression inside. -/
inductive EnumExpr
  | literal (value : UInt64) (span : Span)
  | item (name : String) (span : Span)
  | negate (operand : EnumExpr) (span : Span)
  | shiftLeft (left right : EnumExpr)
  | bitOr (left right : EnumExpr)

/-- Where an expression stands, parentheses around it not counted. -/
def EnumExpr.span : EnumExpr → Span
  | literal _ span | item _ span | negate _ span => span
  | shiftLeft left right | bitOr left right => left.span.merge right.span

/-- How an argument travels, as written in front of a parameter's type. -/
inductive ParamModifier
  | unmarked | inMark | outMark | refMark
deriving DecidableEq

/-- A parameter of a constructor or a method. -/
structure Parameter where
  name : String
  type : TypeExpr
  modifier : ParamModifier
  span : Span

/-- The reading or the writing half of a property. -/
structure Accessor where
  visibility : Visibility
  span : Span

/-- What a member is. -/
inductive MemberKind
  | constructor (params : List Parameter)
  | method (params : List Parameter) (returns : TypeExpr)
  | property (type : TypeExpr) (getter setter : Option Accessor)

/-- A member of a class or a struct. -/
structure Member where
  name : String
  kind : MemberKind
  visibility : Visibility
  isStatic : Bool
  span : Span

/-- What a class or a struct declares. -/
structure ClassBody where
  base : Option DottedName
  members : List Member

/-- An item of an enum, with the expression of its value where one is written. -/
structure EnumItem where
  name : String
  value : Option EnumExpr
  span : Span

/-- What an enum declares. -/
structure EnumBody where
  underlying : Option TypeExpr
  items : List EnumItem

/-- What a declared type is. -/
inductive TypeBody
  | classBody (body : ClassBody)
  | structBody (body : ClassBody)
  | enumBody (body : EnumBody)

/-- The declaration of a type. -/
structure TypeDecl where
  name : String
  body : TypeBody
  visibility : Visibility
  isStatic : Bool
  attributes : List Attribute
  span : Span

/-- Tells whether an attribute is present, under its name or with `Attribute` after it. -/
def TypeDecl.hasAttribute (d : TypeDecl) (name : String) : Bool :=
  d.attributes.any fun a => a.name == name || a.name == name ++ "Attribute"

/-- A namespace with what it holds, or a type. -/
inductive Item
  | inNamespace (path : List String) (items : List Item) (span : Span)
  | declared (decl : TypeDecl)

/-- The content of one declaration file. -/
structure Assembly where
  items : List Item

end Interop.Source
