/-
# Binary floating point numbers

Numbers in the two binary interchange formats of IEEE 754, kept as their bits.  All NaNs are
one value here.  Equality of numbers is not equality of bits: the two zeros are equal, and NaN
is equal to nothing.
-/
import Interop.Power

namespace Interop

/-- A binary interchange format: the widths of the fraction and of the exponent. -/
structure BinaryFormat where
  fractionBits : Nat
  exponentBits : Nat

/-- What the bits of a number say. -/
inductive BinaryClass
  | nan
  | infinite (negative : Bool)
  /-- The number `mantissa * 2 ^ exponent`, with its sign.  `narrow` tells that the next number
  toward zero is only half as far away as the next one away from it. -/
  | finite (negative : Bool) (mantissa : Nat) (exponent : Int) (narrow : Bool)
deriving DecidableEq

namespace BinaryFormat

/-- The format of 32 bits. -/
def single : BinaryFormat := ⟨23, 8⟩

/-- The format of 64 bits. -/
def double : BinaryFormat := ⟨52, 11⟩

/-- Reads the bits of a number. -/
def classify (f : BinaryFormat) (bits : Nat) : BinaryClass :=
  let fraction := bits % twoPow f.fractionBits
  let biased := bits / twoPow f.fractionBits % twoPow f.exponentBits
  let negative := bits / twoPow (f.fractionBits + f.exponentBits) % 2 = 1
  let least : Int := 2 - twoPow (f.exponentBits - 1) - f.fractionBits
  if biased = twoPow f.exponentBits - 1 then
    if fraction = 0 then .infinite negative else .nan
  else if biased = 0 then .finite negative fraction least false
  else
    .finite negative (twoPow f.fractionBits + fraction) (least + biased - 1)
      (fraction = 0 ∧ 1 < biased)

end BinaryFormat

/-- A number of 32 bits. -/
structure Binary32 where
  bits : UInt32
deriving DecidableEq

/-- A number of 64 bits. -/
structure Binary64 where
  bits : UInt64
deriving DecidableEq

namespace Binary32

/-- What the bits say. -/
def classify (x : Binary32) : BinaryClass := BinaryFormat.single.classify x.bits.toNat

/-- The positive zero. -/
def zero : Binary32 := ⟨0⟩

/-- The value that is no number. -/
def nan : Binary32 := ⟨0x7fc00000⟩

/-- Tells whether this is no number. -/
def isNaN (x : Binary32) : Bool := x.classify = .nan

/-- Equality of numbers. -/
def numEq (x y : Binary32) : Bool :=
  !x.isNaN && !y.isNaN && (x.bits = y.bits || (x.bits ||| y.bits) <<< 1 = 0)

/-- The number with the given bits, every NaN as the same value. -/
def ofFloat (x : Float32) : Binary32 := if x.isNaN then nan else ⟨x.toBits⟩

end Binary32

namespace Binary64

/-- What the bits say. -/
def classify (x : Binary64) : BinaryClass := BinaryFormat.double.classify x.bits.toNat

/-- The positive zero. -/
def zero : Binary64 := ⟨0⟩

/-- The value that is no number. -/
def nan : Binary64 := ⟨0x7ff8000000000000⟩

/-- Tells whether this is no number. -/
def isNaN (x : Binary64) : Bool := x.classify = .nan

/-- Equality of numbers. -/
def numEq (x y : Binary64) : Bool :=
  !x.isNaN && !y.isNaN && (x.bits = y.bits || (x.bits ||| y.bits) <<< 1 = 0)

/-- A number as one of this format, every NaN as the same value. -/
def ofFloat (x : Float) : Binary64 := if x.isNaN then nan else ⟨x.toBits⟩

end Binary64

/-- The same number in the wider format. -/
def Binary32.widen (x : Binary32) : Binary64 := .ofFloat (Float32.ofBits x.bits).toFloat

/-- The nearest number of the narrower format, ties to the even fraction. -/
def Binary64.round (x : Binary64) : Binary32 := .ofFloat (Float.ofBits x.bits).toFloat32

/-- The same number in the narrower format, if it has one. -/
def Binary64.narrow? (x : Binary64) : Option Binary32 :=
  let y := x.round
  if x.isNaN || y.widen.numEq x then some y else none

end Interop
