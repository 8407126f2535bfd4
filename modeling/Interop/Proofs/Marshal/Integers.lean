/-
# Integers are converted exactly

A native or managed number can have any integral type or be a unit of `char`, and it can be wanted
as any of these, or as an enum with one of these underneath.  Each of these conversions succeeds
exactly if the wanted type has the number in its range, and gives that number; nothing is cut off.
An enum value keeps its number in 64 bits, from which it is read back with the sign of its type.

Main result: `integers_exact`.
-/
import Interop.Model.Binding
import Interop.Proofs.MachineWords
import Interop.Proofs.Marshal.RoundTrip
import Interop.Source.Parser

namespace Interop

open Model Native Managed

/-! ### The bits of enum values -/

namespace Managed.EnumValue

lemma toBitVec_bits_signed (path : TypePath) (n : Int) :
    (signed path n).bits.toBitVec = .ofInt 64 n := by
  apply BitVec.eq_of_toNat_eq
  have hbits := toNat_bits_signed path n
  rw [BitVec.toNat_ofInt, UInt64.toNat_toBitVec]
  exact (Int.toNat_natCast _).symm.trans (congrArg Int.toNat hbits)

/-- The bits of a number of a type are its word in 64 bits. -/
lemma toBitVec_bits_signed_of_holds {p : Primitive} {n : Int} (path : TypePath)
    (h : p.holds n = true) : (signed path n).bits.toBitVec = p.extend (p.word n) := by
  rw [toBitVec_bits_signed, Primitive.extend_eq_ofInt, Primitive.ofWord_word_of_holds h]

end Managed.EnumValue

namespace Marshal

/-- The number of an enum value whose bits are a word of its type. -/
lemma numberOf_eq_ofWord {p : Primitive} {w : EnumValue} {b : BitVec p.bitWidth}
    (h : w.bits.toBitVec = p.extend b) : numberOf p w = p.ofWord b := by
  rw [← Primitive.ofWord_extend, ← h]
  rfl

/-- An enum value has the number that it was made from, also over `char`, which no enum of a bound
model has underneath. -/
lemma numberOf_signed_of_holds {p : Primitive} {n : Int} (path : TypePath)
    (h : p.holds n = true) : numberOf p (.signed path n) = n := by
  rw [numberOf_eq_ofWord (EnumValue.toBitVec_bits_signed_of_holds path h),
    Primitive.ofWord_word_of_holds h]

/-! ### What the conversions give -/

/-- A conversion of the number `n` to the type `p`, which has the range from `lo` to `hi`: it gives
a result exactly if the number lies in the range, and the result is as it should be; if the number
does not, the conversion fails and says so. -/
structure ExactIn {α : Type} (p : Primitive) (lo hi n : Int) (IsResult : α → Prop)
    (result : Except ConversionFault α) : Prop where
  ok_iff : ∀ r, result = .ok r ↔ (lo ≤ n ∧ n ≤ hi) ∧ IsResult r
  error : ¬(lo ≤ n ∧ n ≤ hi) → result = .error (.outOfRange (toString n) p)

variable {α : Type} {p q : Primitive} {lo hi n : Int}

lemma integerOf_of_not_holds (h : p.holds n = false) :
    integerOf p n = .error (.outOfRange (toString n) p) := by
  rw [integerOf, Scalar.ofInt?, dif_neg (by rw [h]; exact Bool.false_ne_true)]

/-- What is made of a number that was converted is exact if it is as it should be. -/
lemma exactIn_map_integerOf (hp : p.integerRange? = some (lo, hi)) {f : Scalar → α}
    {IsResult : α → Prop} (hf : ∀ h r, IsResult r ↔ f (.integer p n h) = r) :
    ExactIn p lo hi n IsResult ((integerOf p n).map f) where
  ok_iff r := by
    rw [map_eq_ok_iff, ← Primitive.holds_iff hp]
    constructor
    · rintro ⟨s, hs, hr⟩
      obtain ⟨h, rfl⟩ := integerOf_eq_ok_iff.mp hs
      exact ⟨h, (hf h r).mpr hr⟩
    · rintro ⟨h, hr⟩
      exact ⟨_, integerOf_of_holds h, (hf h r).mp hr⟩
  error hn := by
    rw [← Primitive.holds_iff hp, Bool.not_eq_true] at hn
    rw [integerOf_of_not_holds hn]
    rfl

/-- What is made of a number that was converted is made of the same number. -/
lemma exactIn_of_integerOf (hp : p.integerRange? = some (lo, hi)) (f : Scalar → α) :
    ExactIn p lo hi n (fun r => ∃ h, r = f (.integer p n h)) ((integerOf p n).map f) := by
  refine exactIn_map_integerOf hp fun h r => ⟨?_, ?_⟩
  · rintro ⟨_, rfl⟩
    rfl
  · rintro rfl
    exact ⟨h, rfl⟩

/-- A number is converted by its range alone, whatever type it had. -/
lemma convertScalar_integer (hp : p.integerRange? = some (lo, hi)) (hn : q.holds n = true)
    (found : String) : convertScalar p (.integer q n hn) found = integerOf p n := by
  cases p with
  | bool | float32 | float64 => cases hp
  | _ => rfl

/-- An enum value made of a number of its type has this number, and its bits are the number modulo
two to the 64. -/
lemma eq_signed_iff {path : TypePath} (h : p.holds n = true) {w : EnumValue} :
    w.type = path ∧ (w.bits.toNat : Int) = n % twoPow 64 ∧ numberOf p w = n ↔
      .signed path n = w := by
  constructor
  · rintro ⟨rfl, -, rfl⟩
    exact signed_numberOf p w
  · rintro rfl
    exact ⟨rfl, EnumValue.toNat_bits_signed path n, numberOf_signed_of_holds path h⟩

/-- For each integral type and for `char`, and whatever type a number has: the conversions to the
type, and to an enum with it underneath, succeed exactly if the number lies in the range of the
type, which is to say that its width loses nothing of the number.  The result is the same number,
and for an enum its bits are the number modulo two to the 64.  An enum value is converted by the
number that its bits are with the sign of its type. -/
theorem integers_exact (m : BindingModel) (t : HandleTable) (heap : Heap)
    (hp : p.integerRange? = some (lo, hi)) (hn : q.holds n = true) :
    (p.wrap n = n ↔ lo ≤ n ∧ n ≤ hi) ∧
    ExactIn p lo hi n (fun r => ∃ h, r = (.scalar (.integer p n h), heap))
      (toManaged m t (.primitive p) heap (.scalar (.integer q n hn))) ∧
    (∃ result, toNative m heap (.primitive p) t (.scalar (.integer q n hn)) = (result, t) ∧
      ExactIn p lo hi n (fun r => ∃ h, r = .scalar (.integer p n h)) result) ∧
    ∀ path e, m.enum? path = some e → e.underlying = p →
      ExactIn p lo hi n
        (fun r => ∃ w, r = (.enum w, heap) ∧
          w.type = path ∧ (w.bits.toNat : Int) = n % twoPow 64 ∧ numberOf p w = n)
        (toManaged m t (.enum path) heap (.scalar (.integer q n hn))) ∧
      (∃ result, toNative m heap (.enum path) t (.scalar (.integer q n hn)) = (result, t) ∧
        ExactIn p lo hi n (fun r => ∃ h, r = .scalar (.integer p n h)) result) ∧
      ∀ w, w.type = path →
        ∃ result, toNative m heap (.enum path) t (.enum w) = (result, t) ∧
          ExactIn p lo hi (numberOf p w)
            (fun r => ∃ h, r = .scalar (.integer p (numberOf p w) h)) result := by
  refine ⟨Primitive.wrap_eq_self_iff hp, ?_, ?_, ?_⟩
  · rw [toManaged, convertScalar_integer hp hn]
    exact exactIn_of_integerOf hp fun s => (ManagedValue.scalar s, heap)
  · refine ⟨_, rfl, ?_⟩
    rw [convertScalar_integer hp hn]
    exact exactIn_of_integerOf hp _
  · rintro path e he rfl
    simp only [toManaged, toNative, he]
    refine ⟨?_, ⟨_, rfl, exactIn_of_integerOf hp _⟩, ?_⟩
    · refine exactIn_map_integerOf hp fun h r => ⟨?_, ?_⟩
      · rintro ⟨w, rfl, hw⟩
        rw [(eq_signed_iff h).mp hw]
      · rintro rfl
        exact ⟨_, rfl, (eq_signed_iff h).mpr rfl⟩
    · rintro w rfl
      rw [if_pos rfl]
      exact ⟨_, rfl, exactIn_of_integerOf hp _⟩

/-- An enum of eight bits with a sign takes -1 from a native number of 32 bits, and not 128. -/
theorem integers_exact_signed_enum :
    ∃ a, Source.Assembly.ofText "public enum E : sbyte \x7b X \x7d" = .ok a ∧
      toManaged (.ofAssembly a) .empty (.enum ⟨[], "E"⟩) .empty
          (.scalar (.integer .int32 (-1) rfl)) =
        .ok (.enum ⟨⟨[], "E"⟩, 0xffffffffffffffff⟩, .empty) ∧
      toManaged (.ofAssembly a) .empty (.enum ⟨[], "E"⟩) .empty
          (.scalar (.integer .int32 128 rfl)) = .error (.outOfRange "128" .int8) := by
  have hread : (Source.Assembly.ofText "public enum E : sbyte \x7b X \x7d").toOption.any (fun a =>
      ((BindingModel.ofAssembly a).enum? ⟨[], "E"⟩).any (·.underlying = .int8)) = true := by
    decide +kernel
  obtain ⟨a, ha, hbound⟩ := Source.Assembly.exists_of_any hread
  obtain ⟨e, he, hkind⟩ := (Option.any_eq_true ..).mp hbound
  have hexact : ∀ (n : Int) (hn : Primitive.int32.holds n = true), _ := fun n hn =>
    ((integers_exact (.ofAssembly a) .empty .empty (p := .int8) rfl hn).2.2.2 ⟨[], "E"⟩ e he
      (of_decide_eq_true hkind)).1
  refine ⟨a, ha, ?_, ?_⟩
  · exact ((hexact (-1) rfl).ok_iff _).mpr ⟨by decide, _, rfl, rfl, by decide, by decide⟩
  · exact (hexact 128 rfl).error (by decide)

end Marshal

end Interop
