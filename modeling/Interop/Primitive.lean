/-
# Primitive types

The built-in value types that cross the boundary by copy, with their widths and the ranges
of the integral ones.
-/
import Interop.Power

namespace Interop

/-- A built-in value type. -/
inductive Primitive
  | bool | char | int8 | uint8 | int16 | uint16 | int32 | uint32 | int64 | uint64
  | float32 | float64
deriving DecidableEq

namespace Primitive

/-- All primitive types. -/
def all : List Primitive :=
  [bool, char, int8, uint8, int16, uint16, int32, uint32, int64, uint64, float32, float64]

/-- The word for a primitive type in declarations. -/
def keyword : Primitive → String
  | bool => "bool" | char => "char" | int8 => "sbyte" | uint8 => "byte" | int16 => "short"
  | uint16 => "ushort" | int32 => "int" | uint32 => "uint" | int64 => "long"
  | uint64 => "ulong" | float32 => "float" | float64 => "double"

/-- The primitive type that a word stands for. -/
def ofKeyword? (s : String) : Option Primitive := all.find? (·.keyword == s)

theorem ofKeyword?_keyword (p : Primitive) : ofKeyword? p.keyword = some p := by
  cases p <;> decide +kernel

/-- The capitalised spelling, used inside native names. -/
def capitalized : Primitive → String
  | bool => "Bool" | char => "Char" | int8 => "Int8" | uint8 => "UInt8" | int16 => "Int16"
  | uint16 => "UInt16" | int32 => "Int32" | uint32 => "UInt32" | int64 => "Int64"
  | uint64 => "UInt64" | float32 => "Float" | float64 => "Double"

/-- The integral types.  `char` holds a 16-bit unit but is not one of them. -/
def isIntegral : Primitive → Bool
  | bool | char | float32 | float64 => false
  | _ => true

/-- The integral types with negative values. -/
def isSigned : Primitive → Bool
  | int8 | int16 | int32 | int64 => true
  | _ => false

/-- The number of bits of a value. -/
def bitWidth : Primitive → Nat
  | bool | int8 | uint8 => 8
  | char | int16 | uint16 => 16
  | int32 | uint32 | float32 => 32
  | int64 | uint64 | float64 => 64

/-- The least and the greatest value of an integral type, or of `char` as a 16-bit number. -/
def integerRange? (p : Primitive) : Option (Int × Int) :=
  if p.isIntegral || p == char then
    if p.isSigned then some (-twoPow (p.bitWidth - 1), twoPow (p.bitWidth - 1) - 1)
    else some (0, twoPow p.bitWidth - 1)
  else none

/-- Every integral type has a range. -/
theorem exists_integerRange? {p : Primitive} (h : p.isIntegral = true) :
    ∃ lo hi, p.integerRange? = some (lo, hi) ∧ lo ≤ 0 ∧ 0 ≤ hi := by
  cases p <;> first | exact ⟨_, _, rfl, by decide, by decide⟩ | cases h

end Primitive

end Interop
