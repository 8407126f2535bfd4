/-
# Scalar values

The values of the primitive types, which have the same form on both sides of the boundary.
An integer carries its type and lies in the range of that type.
-/
import Interop.Decimal
import Interop.Primitive

namespace Interop

/-- Tells whether a number lies in the range of an integral type or of `char`. -/
def Primitive.holds (p : Primitive) (v : Int) : Bool :=
  match p.integerRange? with
  | some (lo, hi) => lo ≤ v && v ≤ hi
  | none => false

/-- The number of an integral type that agrees with `v` modulo two to its width. -/
def Primitive.wrap (p : Primitive) (v : Int) : Int :=
  if p.isSigned then v.bmod (twoPow p.bitWidth) else v % twoPow p.bitWidth

theorem Primitive.holds_wrap {p : Primitive} (h : p ≠ .bool) (h₁ : p ≠ .float32)
    (h₂ : p ≠ .float64) (v : Int) : p.holds (p.wrap v) = true := by
  cases p with
  | bool => exact absurd rfl h
  | float32 => exact absurd rfl h₁
  | float64 => exact absurd rfl h₂
  | int8 | int16 | int32 | int64 =>
    simp only [holds, wrap, integerRange?, isIntegral, isSigned, bitWidth, twoPow, Int.bmod,
      Nat.pow_eq, Bool.true_or, if_true, Bool.and_eq_true, decide_eq_true_eq]
    omega
  | char | uint8 | uint16 | uint32 | uint64 =>
    simp only [holds, wrap, integerRange?, isIntegral, isSigned, bitWidth, twoPow, Nat.pow_eq,
      Bool.true_or, Bool.or_true, beq_self_eq_true, if_true, Bool.false_eq_true, if_false,
      Bool.and_eq_true, decide_eq_true_eq]
    omega

/-- A value of a primitive type. -/
inductive Scalar
  | bool (b : Bool)
  /-- A number of an integral type, or a unit of `char`. -/
  | integer (p : Primitive) (v : Int) (inRange : p.holds v = true)
  | single (x : Binary32)
  | double (x : Binary64)
deriving DecidableEq

namespace Scalar

/-- The type of a value. -/
def type : Scalar → Primitive
  | bool _ => .bool
  | integer p _ _ => p
  | single _ => .float32
  | double _ => .float64

/-- The number that a value of an integral type or of `char` is. -/
def integer? : Scalar → Option Int
  | integer _ v _ => some v
  | _ => none

/-- The value of an integral type or of `char` that is the given number. -/
def ofInt? (p : Primitive) (v : Int) : Option Scalar :=
  if h : p.holds v = true then some (.integer p v h) else none

/-- The value of a type whose bits are all zero. -/
def zero : Primitive → Scalar
  | .bool => .bool false
  | .float32 => .single .zero
  | .float64 => .double .zero
  | .char => .integer .char 0 rfl
  | .int8 => .integer .int8 0 rfl
  | .uint8 => .integer .uint8 0 rfl
  | .int16 => .integer .int16 0 rfl
  | .uint16 => .integer .uint16 0 rfl
  | .int32 => .integer .int32 0 rfl
  | .uint32 => .integer .uint32 0 rfl
  | .int64 => .integer .int64 0 rfl
  | .uint64 => .integer .uint64 0 rfl

/-- The bits of a value as a number. -/
def bits : Scalar → Nat
  | bool b => b.toNat
  | integer p v _ => (v % twoPow p.bitWidth).toNat
  | single x => x.bits.toNat
  | double x => x.bits.toNat

/-- The value of a type that has the given low bits. -/
def ofBits (p : Primitive) (bits : Nat) : Scalar :=
  match h : p with
  | .bool => .bool (bits % twoPow 8 ≠ 0)
  | .float32 => .single ⟨.ofNat bits⟩
  | .float64 => .double ⟨.ofNat bits⟩
  | .char | .int8 | .uint8 | .int16 | .uint16 | .int32 | .uint32 | .int64 | .uint64 =>
    .integer p (p.wrap bits) (Primitive.holds_wrap (by simp [h]) (by simp [h]) (by simp [h]) _)

@[simp]
theorem type_zero (p : Primitive) : (zero p).type = p := by cases p <;> rfl

/-- Equality as programs see it: of one type, and equal as numbers. -/
def eqv : Scalar → Scalar → Bool
  | bool a, bool b => a = b
  | integer p v _, integer q w _ => p = q && v = w
  | single x, single y => x.numEq y
  | double x, double y => x.numEq y
  | _, _ => false

/-- A unit of `char` as a text: the character itself, or for half of a surrogate pair its
number. -/
def charText (unit : Nat) : String :=
  if 0xd800 ≤ unit ∧ unit < 0xe000 then
    "\\u" ++ String.ofList (Nat.toDigits 16 unit)
  else String.singleton (Char.ofNat unit)

/-- The text of a value. -/
def text : Scalar → String
  | bool b => if b then "true" else "false"
  | integer .char v _ => charText v.toNat
  | integer _ v _ => toString v
  | single x => Decimal.text x.classify
  | double x => Decimal.text x.classify

end Scalar

end Interop
