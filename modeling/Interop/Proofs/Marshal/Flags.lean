/-
# Combining flags on either side

The values of an enum can be combined bit by bit: native code combines the words of its underlying
type, managed code the 64 bits of the enum values.  The bits of a value are its word filled up with
the sign or with zeros, and filling up commutes with operations that treat all bits alike; so it
does not matter on which side flags are combined or looked for.

Main result: `flags_commute`.
-/
import Interop.Model.Binding
import Interop.Proofs.Marshal.Integers
import Interop.Source.Parser

namespace Interop

open Model Native Managed

/-- An operation that combines flags. -/
inductive FlagOperation
  | or | and | xor

namespace FlagOperation

/-- The operation on words. -/
def onWords {w : Nat} (op : FlagOperation) (a b : BitVec w) : BitVec w :=
  match op with
  | or => a ||| b
  | and => a &&& b
  | xor => a ^^^ b

/-- The operation on the bits of enum values. -/
def onBits (op : FlagOperation) (u v : UInt64) : UInt64 :=
  match op with
  | or => u ||| v
  | and => u &&& v
  | xor => u ^^^ v

/-- The operation on numbers of a type: on their words in the width of the type. -/
def onNumbers (op : FlagOperation) (p : Primitive) (x y : Int) : Int :=
  p.ofWord (op.onWords (p.word x) (p.word y))

lemma toBitVec_onBits (op : FlagOperation) (u v : UInt64) :
    (op.onBits u v).toBitVec = op.onWords u.toBitVec v.toBitVec := by
  cases op with
  | or => exact UInt64.toBitVec_or u v
  | and => exact UInt64.toBitVec_and u v
  | xor => exact UInt64.toBitVec_xor u v

/-- Filled up words are combined as the words are. -/
lemma onWords_extend (op : FlagOperation) (p : Primitive) (a b : BitVec p.bitWidth) :
    op.onWords (p.extend a) (p.extend b) = p.extend (op.onWords a b) := by
  simp only [Primitive.extend]
  split
  · cases op with
    | or => exact BitVec.signExtend_or.symm
    | and => exact BitVec.signExtend_and.symm
    | xor => exact BitVec.signExtend_xor.symm
  · cases op with
    | or => exact BitVec.setWidth_or.symm
    | and => exact BitVec.setWidth_and.symm
    | xor => exact BitVec.setWidth_xor.symm

/-- The bits of combined enum values are those of the combined numbers. -/
lemma toBitVec_onBits_signed (op : FlagOperation) {p : Primitive} (path : TypePath) {x y : Int}
    (hx : p.holds x = true) (hy : p.holds y = true) :
    (op.onBits (EnumValue.signed path x).bits (EnumValue.signed path y).bits).toBitVec =
      p.extend (op.onWords (p.word x) (p.word y)) := by
  rw [toBitVec_onBits, EnumValue.toBitVec_bits_signed_of_holds path hx,
    EnumValue.toBitVec_bits_signed_of_holds path hy, onWords_extend]

end FlagOperation

namespace Marshal

variable {p : Primitive} {x y : Int}

/-- An enum value contains a flag exactly if its number does. -/
lemma contains_signed_iff (path : TypePath) (hx : p.holds x = true) (hy : p.holds y = true) :
    (EnumValue.signed path x).contains (EnumValue.signed path y).bits = true ↔
      FlagOperation.and.onNumbers p x y = y := by
  have hbits := FlagOperation.and.toBitVec_onBits_signed path hx hy
  calc
    (EnumValue.signed path x).contains (EnumValue.signed path y).bits = true
      ↔ FlagOperation.and.onBits (EnumValue.signed path x).bits (EnumValue.signed path y).bits =
          (EnumValue.signed path y).bits := decide_eq_true_iff
    _ ↔ p.extend (FlagOperation.and.onWords (p.word x) (p.word y)) = p.extend (p.word y) := by
      rw [← UInt64.toBitVec_inj, hbits, EnumValue.toBitVec_bits_signed_of_holds path hy]
    _ ↔ FlagOperation.and.onNumbers p x y = p.ofWord (p.word y) := by
      rw [Primitive.extend_inj, FlagOperation.onNumbers, Primitive.ofWord_inj]
    _ ↔ FlagOperation.and.onNumbers p x y = y := by rw [Primitive.ofWord_word_of_holds hy]

/-- Combined enum values are written as the combined numbers. -/
lemma toNative_onBits_signed {m : BindingModel} {path : TypePath} {e : BoundEnum}
    (he : m.enum? path = some e) (hx : e.underlying.holds x = true)
    (hy : e.underlying.holds y = true) (op : FlagOperation) :
    ∃ h : e.underlying.holds (op.onNumbers e.underlying x y) = true, ∀ t heap,
      toNative m heap (.enum path) t
          (.enum ⟨path, op.onBits (EnumValue.signed path x).bits (EnumValue.signed path y).bits⟩) =
        (.ok (.scalar (.integer e.underlying (op.onNumbers e.underlying x y) h)), t) := by
  obtain ⟨lo, hi, hrange⟩ := Primitive.exists_range_of_holds hx
  have h : e.underlying.holds (op.onNumbers e.underlying x y) = true :=
    Primitive.holds_ofWord hrange _
  refine ⟨h, fun t heap => toNative_eq_ok_iff.mpr ?_⟩
  have hnumber : numberOf e.underlying ⟨path, op.onBits _ _⟩ = op.onNumbers e.underlying x y :=
    numberOf_eq_ofWord (op.toBitVec_onBits_signed path hx hy)
  exact Writes.enum (w := ⟨path, op.onBits _ _⟩) t he hnumber h

/-- For every enum and any two native numbers in the range of its underlying type: both are read,
and whatever operation combines the bits of the two enum values, what is written for the combined
bits is the number that the operation makes of the two numbers in the width of the type.  The one
value contains the bits of the other as a flag exactly if the one number does natively. -/
theorem flags_commute (m : BindingModel) {path : TypePath} {e : BoundEnum}
    (he : m.enum? path = some e) {q r : Primitive} (hq : q.holds x = true)
    (hr : r.holds y = true) (hx : e.underlying.holds x = true)
    (hy : e.underlying.holds y = true) :
    ∃ u v : UInt64,
      (∀ t heap, toManaged m t (.enum path) heap (.scalar (.integer q x hq)) =
        .ok (.enum ⟨path, u⟩, heap)) ∧
      (∀ t heap, toManaged m t (.enum path) heap (.scalar (.integer r y hr)) =
        .ok (.enum ⟨path, v⟩, heap)) ∧
      (∀ op : FlagOperation, ∃ h : e.underlying.holds (op.onNumbers e.underlying x y) = true,
        ∀ t heap, toNative m heap (.enum path) t (.enum ⟨path, op.onBits u v⟩) =
          (.ok (.scalar (.integer e.underlying (op.onNumbers e.underlying x y) h)), t)) ∧
      ((EnumValue.mk path u).contains v = true ↔
        FlagOperation.and.onNumbers e.underlying x y = y) := by
  refine ⟨(EnumValue.signed path x).bits, (EnumValue.signed path y).bits, ?_, ?_, ?_, ?_⟩
  · exact fun t heap => toManaged_eq_ok_iff.mpr (.enum heap he hq hx)
  · exact fun t heap => toManaged_eq_ok_iff.mpr (.enum heap he hr hy)
  · exact toNative_onBits_signed he hx hy
  · exact contains_signed_iff path hx hy

/-- Flags of eight bits with a sign: -128 and 5 are combined to -123, and -128 does not contain
5. -/
theorem flags_commute_signed :
    ∃ a, Source.Assembly.ofText "[Flags] public enum E : sbyte \x7b X \x7d" = .ok a ∧
      ∃ u v : UInt64,
        (∀ t heap, toManaged (.ofAssembly a) t (.enum ⟨[], "E"⟩) heap
          (.scalar (.integer .int32 (-128) rfl)) = .ok (.enum ⟨⟨[], "E"⟩, u⟩, heap)) ∧
        (∀ t heap, toManaged (.ofAssembly a) t (.enum ⟨[], "E"⟩) heap
          (.scalar (.integer .uint8 5 rfl)) = .ok (.enum ⟨⟨[], "E"⟩, v⟩, heap)) ∧
        (∀ t heap, toNative (.ofAssembly a) heap (.enum ⟨[], "E"⟩) t
            (.enum ⟨⟨[], "E"⟩, u ||| v⟩) = (.ok (.scalar (.integer .int8 (-123) rfl)), t)) ∧
        (EnumValue.mk ⟨[], "E"⟩ u).contains v = false := by
  have hread : (Source.Assembly.ofText "[Flags] public enum E : sbyte \x7b X \x7d").toOption.any
      (fun a => ((BindingModel.ofAssembly a).enum? ⟨[], "E"⟩).any (·.underlying = .int8)) =
        true := by
    decide +kernel
  obtain ⟨a, ha, hbound⟩ := Source.Assembly.exists_of_any hread
  obtain ⟨⟨path, name, p, isFlags, items, span⟩, he, hp⟩ := (Option.any_eq_true ..).mp hbound
  obtain rfl : p = .int8 := of_decide_eq_true hp
  obtain ⟨u, v, hu, hv, hops, hcontains⟩ := flags_commute (.ofAssembly a) he
    (q := .int32) (r := .uint8) (x := -128) (y := 5) rfl rfl rfl rfl
  have hsum : FlagOperation.or.onNumbers .int8 (-128) 5 = -123 := by decide
  have hcommon : FlagOperation.and.onNumbers .int8 (-128) 5 ≠ 5 := by decide
  obtain ⟨_, hor⟩ := hops .or
  simp only [hsum] at hor
  exact ⟨a, ha, u, v, hu, hv, hor, Bool.eq_false_iff.mpr fun h => hcommon (hcontains.mp h)⟩

end Marshal

end Interop
