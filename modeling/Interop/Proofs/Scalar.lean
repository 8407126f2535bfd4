/-
# The bits of scalars

A value is read back from its bits, whatever stands in the bits above its width.
-/
import Interop.Scalar
import Mathlib.Tactic.Common

namespace Interop

/-- A number of a type agrees with itself modulo two to the width. -/
lemma Primitive.wrap_eq_self {p : Primitive} {v w : Int} (h : p.holds v = true)
    (hw : w % twoPow p.bitWidth = v % twoPow p.bitWidth) : p.wrap w = v := by
  cases p <;>
    simp [Primitive.holds, Primitive.wrap, Primitive.integerRange?, Primitive.isIntegral,
      Primitive.isSigned, Primitive.bitWidth, twoPow, Int.bmod] at h hw ⊢ <;>
    omega

namespace Scalar

lemma bits_lt (s : Scalar) : s.bits < twoPow s.type.bitWidth := by
  cases s with
  | bool b => cases b <;> decide
  | integer p v h =>
    have hpos := twoPow_pos p.bitWidth
    have := Int.emod_lt_of_pos v (Int.natCast_pos.mpr hpos)
    simp only [bits, type]
    omega
  | single x => exact x.bits.toNat_lt
  | double x => exact x.bits.toNat_lt

lemma ofBits_eq_integer {p : Primitive} {v : Int} (hv : p.holds v = true) {n : Nat}
    (hn : (n : Int) % twoPow p.bitWidth = v % twoPow p.bitWidth) :
    ofBits p n = .integer p v hv := by
  have hwrap := Primitive.wrap_eq_self hv hn
  cases p with
  | bool | float32 | float64 => cases hv
  | _ => simp only [ofBits, hwrap]

/-- A value is read back from its bits, with any bits above them. -/
lemma ofBits_bits (s : Scalar) (rest : Nat) :
    ofBits s.type (s.bits + twoPow s.type.bitWidth * rest) = s := by
  cases s with
  | bool b =>
    have hlow : (b.toNat + twoPow 8 * rest) % twoPow 8 = b.toNat := by
      rw [Nat.add_mul_mod_self_left]
      cases b <;> rfl
    have hb : (bool b).bits + twoPow (bool b).type.bitWidth * rest = b.toNat + twoPow 8 * rest :=
      rfl
    rw [hb]
    simp only [type, ofBits, hlow]
    cases b <;> rfl
  | integer p v h =>
    apply ofBits_eq_integer
    have hpos := twoPow_pos p.bitWidth
    have hnonneg : 0 ≤ v % twoPow p.bitWidth := Int.emod_nonneg v (by omega)
    simp only [bits, type]
    rw [Int.natCast_add, Int.natCast_mul, Int.toNat_of_nonneg hnonneg,
      Int.add_mul_emod_self_left, Int.emod_emod]
  | single x =>
    have hx : UInt32.ofNat (x.bits.toNat + twoPow 32 * rest) = x.bits := by
      apply UInt32.toNat_inj.mp
      have := x.bits.toNat_lt
      rw [UInt32.toNat_ofNat', show twoPow 32 = 2 ^ 32 from rfl, Nat.add_mul_mod_self_left]
      exact Nat.mod_eq_of_lt this
    exact congrArg (fun y => single ⟨y⟩) hx
  | double x =>
    have hx : UInt64.ofNat (x.bits.toNat + twoPow 64 * rest) = x.bits := by
      apply UInt64.toNat_inj.mp
      have := x.bits.toNat_lt
      rw [UInt64.toNat_ofNat', show twoPow 64 = 2 ^ 64 from rfl, Nat.add_mul_mod_self_left]
      exact Nat.mod_eq_of_lt this
    exact congrArg (fun y => double ⟨y⟩) hx

end Scalar

end Interop
