/-
# Arrays in native code

Growable sequences of elements of one kind.  Text elements are copies of constant text; a text
or a handle may be null.  Native code can overwrite the public length and the public kind of an
array; only the storage decides what it holds.
-/
import Interop.Native.Kind
import Interop.Native.Text
import Interop.Scalar

namespace Interop.Native

/-- A token for a managed object; the null pointer is none. -/
structure Handle where
  raw : Nat
  raw_ne_zero : raw ≠ 0
deriving DecidableEq

/-- The handle with the given number, unless that is the null pointer. -/
def Handle.ofRaw? (raw : Nat) : Option Handle := if h : raw = 0 then none else some ⟨raw, h⟩

/-- An element of an array. -/
inductive Element
  | scalar (s : Scalar)
  | text (t : ConstText)
  | handle (h : Handle)
  /-- A text or a handle that is not there. -/
  | null
deriving DecidableEq

namespace Element

/-- Tells whether an element can stand in an array of a kind. -/
def fits (k : Kind) : Element → Bool
  | scalar s => k = .scalar s.type
  | text _ => k = .string
  | handle _ => k = .handle
  | null => k = .string || k = .handle

/-- Equality as programs see it. -/
def eqv : Element → Element → Bool
  | scalar s, scalar t => s.eqv t
  | text s, text t => s = t
  | handle h, handle k => h = k
  | null, null => true
  | _, _ => false

end Element

/-- An array. -/
structure NativeArray where
  kind : Kind
  elements : List Element
  /-- The length that native code reads, and may overwrite. -/
  publicLength : Nat
  /-- The kind that native code reads, and may overwrite. -/
  publicKind : Nat
deriving DecidableEq

namespace NativeArray

/-- The array with the given storage. -/
def ofStorage (kind : Kind) (elements : List Element) : NativeArray :=
  ⟨kind, elements, elements.length, kind.code⟩

/-- The empty array of a kind, if elements can have that kind. -/
def new? (kind : Kind) : Option NativeArray :=
  if kind.isElement then some (ofStorage kind []) else none

/-- The array that holds some scalars of one type. -/
def ofScalars (p : Primitive) (items : List Scalar) : NativeArray :=
  ofStorage (.scalar p) (items.map .scalar)

/-- The number of elements. -/
def length (a : NativeArray) : Nat := a.elements.length

/-- The element at a place. -/
def get? (a : NativeArray) (i : Nat) : Option Element := a.elements[i]?

/-- Where in the storage the element at a place stands, if there is one. -/
def offset? (a : NativeArray) (i : Nat) : Option (Fin a.length) :=
  if h : i < a.length then some ⟨i, h⟩ else none

/-- Adds an element that fits the kind of the array. -/
def push (a : NativeArray) (e : Element) : NativeArray :=
  { a with elements := a.elements ++ [e], publicLength := a.elements.length + 1 }

/-- Adds the elements of a block of memory.  A block without elements changes nothing. -/
def appendBlock (a : NativeArray) (es : List Element) : NativeArray :=
  if es.isEmpty then a
  else
    { a with
      elements := a.elements ++ es
      publicLength := a.elements.length + es.length }

/-- Overwrites the public length. -/
def writeLength (a : NativeArray) (n : Nat) : NativeArray := { a with publicLength := n }

/-- Overwrites the public kind. -/
def writeKind (a : NativeArray) (code : Nat) : NativeArray := { a with publicKind := code }

/-- An array of its own with the same elements. -/
def copy (a : NativeArray) : NativeArray := ofStorage a.kind a.elements

/-- Arrays are equal when they have one kind and equal elements. -/
def eqv (a b : NativeArray) : Bool := a.kind = b.kind && a.elements.isEqv b.elements Element.eqv

end NativeArray

end Interop.Native
