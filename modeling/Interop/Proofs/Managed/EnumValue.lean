/-
# The bits of enum values

An enum value keeps its number in 64 bits.  A number within 64 bits, with or without sign, is
read back as it was, and any bits are those of the number that they are read as.
-/
import Interop.Managed.Value
import Mathlib.Tactic.Common

namespace Interop.Managed.EnumValue

open Model

lemma twoPow_64 : twoPow 64 = 18446744073709551616 := rfl

lemma toInt_eq (e : EnumValue) : e.toInt = (e.bits.toNat : Int).bmod (twoPow 64) :=
  BitVec.toInt_eq_toNat_bmod e.bits.toBitVec

lemma toNat_bits_signed (path : TypePath) (n : Int) :
    ((signed path n).bits.toNat : Int) = n % twoPow 64 := by
  rw [signed, UInt64.toNat_ofNat', twoPow_64]
  omega

/-- A number with sign is read back. -/
lemma toInt_signed {path : TypePath} {n : Int} (hlo : -9223372036854775808 ≤ n)
    (hhi : n ≤ 9223372036854775807) : (signed path n).toInt = n := by
  rw [toInt_eq, toNat_bits_signed, Int.emod_bmod, twoPow_64]
  rw [Int.bmod]
  omega

/-- A number without sign is read back. -/
lemma toNat_signed {path : TypePath} {n : Int} (hlo : 0 ≤ n) (hhi : n ≤ 18446744073709551615) :
    ((signed path n).bits.toNat : Int) = n := by
  rw [toNat_bits_signed, twoPow_64]
  omega

lemma signed_eq_of_toNat {e : EnumValue} {n : Int} (h : n % twoPow 64 = e.bits.toNat) :
    signed e.type n = e := by
  have hbits : (signed e.type n).bits = e.bits := by
    apply UInt64.toNat_inj.mp
    have := toNat_bits_signed e.type n
    omega
  exact congrArg (EnumValue.mk e.type) hbits

/-- The bits are those of the number with sign. -/
lemma signed_toInt (e : EnumValue) : signed e.type e.toInt = e := by
  apply signed_eq_of_toNat
  have hlt := e.bits.toNat_lt
  rw [toInt_eq, Int.bmod_emod, twoPow_64]
  omega

/-- The bits are those of the number without sign. -/
lemma signed_toNat (e : EnumValue) : signed e.type e.bits.toNat = e := by
  apply signed_eq_of_toNat
  have hlt := e.bits.toNat_lt
  rw [twoPow_64]
  omega

end Interop.Managed.EnumValue
