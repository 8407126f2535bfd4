/-
# Kinds of native values

The tag that native code gives to each slot and each array, with its code, the name of its
constant, and its name in messages.
-/
import Interop.Primitive

namespace Interop.Native

/-- A kind of native value. -/
inductive Kind
  | void
  | scalar (p : Primitive)
  | string
  | handle
  | array
deriving DecidableEq

namespace Kind

/-- All kinds, in the order of their codes. -/
def all : List Kind :=
  void :: Primitive.all.map scalar ++ [string, handle, array]

/-- The number that stands for a kind. -/
def code : Kind → Nat
  | void => 0
  | scalar .bool => 1
  | scalar .char => 2
  | scalar .int8 => 3
  | scalar .uint8 => 4
  | scalar .int16 => 5
  | scalar .uint16 => 6
  | scalar .int32 => 7
  | scalar .uint32 => 8
  | scalar .int64 => 9
  | scalar .uint64 => 10
  | scalar .float32 => 11
  | scalar .float64 => 12
  | string => 13
  | handle => 14
  | array => 15

/-- The kind that a number stands for. -/
def ofCode? (code : Nat) : Option Kind := all[code]?

theorem ofCode?_code (k : Kind) : ofCode? k.code = some k := by
  cases k with
  | scalar p => cases p <;> rfl
  | _ => rfl

/-- The name of the constant for a kind in generated code. -/
def constant : Kind → String
  | void => "M2N_KIND_VOID"
  | scalar .bool => "M2N_KIND_BOOL"
  | scalar .char => "M2N_KIND_CHAR"
  | scalar .int8 => "M2N_KIND_I8"
  | scalar .uint8 => "M2N_KIND_U8"
  | scalar .int16 => "M2N_KIND_I16"
  | scalar .uint16 => "M2N_KIND_U16"
  | scalar .int32 => "M2N_KIND_I32"
  | scalar .uint32 => "M2N_KIND_U32"
  | scalar .int64 => "M2N_KIND_I64"
  | scalar .uint64 => "M2N_KIND_U64"
  | scalar .float32 => "M2N_KIND_F32"
  | scalar .float64 => "M2N_KIND_F64"
  | string => "M2N_KIND_STRING"
  | handle => "M2N_KIND_HANDLE"
  | array => "M2N_KIND_ARRAY"

/-- The name of a kind in messages. -/
def text : Kind → String
  | void => "void"
  | scalar .bool => "bool"
  | scalar .char => "char"
  | scalar .int8 => "int8"
  | scalar .uint8 => "uint8"
  | scalar .int16 => "int16"
  | scalar .uint16 => "uint16"
  | scalar .int32 => "int32"
  | scalar .uint32 => "uint32"
  | scalar .int64 => "int64"
  | scalar .uint64 => "uint64"
  | scalar .float32 => "float"
  | scalar .float64 => "double"
  | string => "string"
  | handle => "handle"
  | array => "array"

/-- The kinds that the elements of an array can have. -/
def isElement : Kind → Bool
  | void | array => false
  | _ => true

end Kind

end Interop.Native
