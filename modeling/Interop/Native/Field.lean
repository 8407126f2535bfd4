/-
# The members of the payload union

The eight bytes of a slot are a union with a member for each C type that travels by value.
-/
import Interop.Primitive

namespace Interop.Native

/-- The member of the payload union that holds a value. -/
inductive Field
  | b | c | i8 | u8 | i16 | u16 | i32 | u32 | i64 | u64 | f32 | f64 | str | array | handle | ptr
deriving DecidableEq

namespace Field

/-- The name of a member of the payload union. -/
def name : Field → String
  | b => "b" | c => "c" | i8 => "i8" | u8 => "u8" | i16 => "i16" | u16 => "u16" | i32 => "i32"
  | u32 => "u32" | i64 => "i64" | u64 => "u64" | f32 => "f32" | f64 => "f64" | str => "str"
  | array => "array" | handle => "handle" | ptr => "ptr"

/-- The primitive type of a member; the others are pointers. -/
def primitive? : Field → Option Primitive
  | b => some .bool
  | c => some .char
  | i8 => some .int8
  | u8 => some .uint8
  | i16 => some .int16
  | u16 => some .uint16
  | i32 => some .int32
  | u32 => some .uint32
  | i64 => some .int64
  | u64 => some .uint64
  | f32 => some .float32
  | f64 => some .float64
  | str | array | handle | ptr => none

end Field

end Interop.Native
