/-
# Native values

What a native caller passes in a slot or receives in one.
-/
import Interop.Native.Array

namespace Interop.Native

/-- The value of a slot. -/
inductive NativeValue
  | void
  | null
  | scalar (s : Scalar)
  /-- Constant text. -/
  | str (t : ConstText)
  /-- A buffer for a text that is passed by reference. -/
  | text (b : TextBuffer)
  | array (a : NativeArray)
  | handle (h : Handle)
deriving DecidableEq

namespace NativeValue

/-- The value of a kind in an untouched slot. -/
def zero : Kind → NativeValue
  | .void | .handle | .array => null
  | .scalar p => scalar (.zero p)
  | .string => text .empty

/-- The kind of a value.  Null has none of its own. -/
def kind : NativeValue → Kind
  | void | null => .void
  | scalar s => .scalar s.type
  | str _ | text _ => .string
  | array _ => .array
  | handle _ => .handle

/-- The text by which messages name what was found. -/
def describe : NativeValue → String
  | null => "null"
  | v => v.kind.text

/-- The octets of a text. -/
def octets? : NativeValue → Option (List UInt8)
  | str t => some t.octets
  | text b => some b.octets
  | _ => none

/-- The handle that a number is, or null. -/
def ofRawHandle (raw : Nat) : NativeValue :=
  match Handle.ofRaw? raw with
  | some h => handle h
  | none => null

/-- An element of an array as a value of its own. -/
def ofElement : Element → NativeValue
  | .scalar s => scalar s
  | .text t => str t
  | .handle h => handle h
  | .null => null

/-- Equality as programs see it. -/
def eqv : NativeValue → NativeValue → Bool
  | void, void => true
  | null, null => true
  | scalar s, scalar t => s.eqv t
  | str s, str t => s = t
  | text a, text b => a.eqv b
  | array a, array b => a.eqv b
  | handle h, handle k => h = k
  | _, _ => false

end NativeValue

end Interop.Native
