/-
# Managed values and the managed heap

Values on the managed side.  Arrays and objects are references: two of them can be the same
array or object, and a change to it shows through both.  An object never changes its class, so
a reference carries it.
-/
import Interop.Model.TypePath
import Interop.Scalar
import Interop.Table
import Interop.Text.Utf8

namespace Interop.Managed

open Model

/-- A value of an enum: its bits, extended to 64 by the sign of a signed one. -/
structure EnumValue where
  type : TypePath
  bits : UInt64
deriving DecidableEq

namespace EnumValue

/-- The value of a signed enum that is the given number. -/
def signed (type : TypePath) (value : Int) : EnumValue :=
  ⟨type, .ofNat (value % twoPow 64).toNat⟩

/-- The bits as a number with sign. -/
def toInt (e : EnumValue) : Int := e.bits.toInt64.toInt

/-- Tells whether all bits of a flag are set. -/
def contains (e : EnumValue) (flag : UInt64) : Bool := e.bits &&& flag = flag

end EnumValue

/-- A reference to an array. -/
structure ArrayRef where
  index : Nat
deriving DecidableEq

/-- A reference to an object. -/
structure ObjectRef where
  index : Nat
  type : TypePath
deriving DecidableEq

/-- A value on the managed side. -/
inductive ManagedValue
  | null
  | scalar (s : Scalar)
  | string (text : String)
  | enum (e : EnumValue)
  | array (a : ArrayRef)
  | object (o : ObjectRef)
deriving DecidableEq

/-- The name of the kind of a value in messages. -/
def ManagedValue.typeName : ManagedValue → String
  | null => "null"
  | scalar s => s.type.keyword
  | string _ => "string"
  | enum _ => "enum"
  | array _ => "array"
  | object _ => "object"

/-- All arrays and objects: the elements of the arrays and the fields of the objects. -/
structure Heap where
  arrays : List (List ManagedValue)
  objects : List (Table String ManagedValue)

namespace Heap

/-- Neither arrays nor objects. -/
def empty : Heap := ⟨[], []⟩

/-- A new object without fields.  It keeps its class as text, and the class is read back from
it. -/
def newObject (h : Heap) (type : TypePath) : ObjectRef × Heap :=
  (⟨h.objects.length, .ofDotted type.dotted⟩, { h with objects := h.objects ++ [.empty] })

/-- A new array. -/
def newArray (h : Heap) (items : List ManagedValue) : ArrayRef × Heap :=
  (⟨h.arrays.length⟩, { h with arrays := h.arrays ++ [items] })

/-- The elements of an array. -/
def items (h : Heap) (a : ArrayRef) : List ManagedValue := h.arrays.getD a.index []

/-- Replaces an element of an array.  A place outside the array changes nothing. -/
def setItem (h : Heap) (a : ArrayRef) (i : Nat) (v : ManagedValue) : Heap :=
  { h with arrays := h.arrays.set a.index ((h.items a).set i v) }

/-- The fields of an object. -/
def fields (h : Heap) (o : ObjectRef) : Table String ManagedValue :=
  h.objects.getD o.index .empty

/-- The value of a field of an object, if it was ever set. -/
def field? (h : Heap) (o : ObjectRef) (name : String) : Option ManagedValue :=
  (h.fields o).get? name

/-- Sets a field of an object. -/
def setField (h : Heap) (o : ObjectRef) (name : String) (v : ManagedValue) : Heap :=
  { h with objects := h.objects.set o.index ((h.fields o).set name v) }

/-- Equality of values with arrays nested at most `n` deep: arrays are equal when their
elements are, and objects when they are the same. -/
def eqvTo (h : Heap) : Nat → ManagedValue → ManagedValue → Bool
  | _, .null, .null => true
  | _, .scalar s, .scalar t => s.eqv t
  | _, .string s, .string t => s = t
  | _, .enum e, .enum f => e = f
  | _, .object o, .object p => o = p
  | n + 1, .array a, .array b => (h.items a).isEqv (h.items b) (h.eqvTo n)
  | _, _, _ => false

/-- Equality of values as programs see it. -/
def eqv (h : Heap) (v w : ManagedValue) : Bool := h.eqvTo (h.arrays.length + 1) v w

/-- The text of a value with arrays nested at most `n` deep. -/
def displayTo (h : Heap) : Nat → ManagedValue → String
  | _, .null => "null"
  | _, .scalar s => s.text
  | _, .string text => text
  | _, .enum e =>
    e.type.dotted ++ "(0x" ++ String.ofList (Nat.toDigits 16 e.bits.toNat) ++ ")"
  | _, .object o => o.type.dotted
  | 0, .array _ => "[]"
  | n + 1, .array a => "[" ++ ", ".intercalate ((h.items a).map (h.displayTo n)) ++ "]"

/-- The text of a value. -/
def display (h : Heap) (v : ManagedValue) : String := h.displayTo (h.arrays.length + 1) v

end Heap

end Interop.Managed
