/-
# Integer constants in C

A negative number is written in C as a constant with a minus in front, which is then negated in the
type that the form of the constant gives it.  So the least number of 32 or of 64 bits cannot be
written with digits, and a minus in front of a constant without sign gives another number.  The
values of the items of an enum lie in the range of its type, and in that range the constants that
the header defines are the values.  The `int` of C has 32 bits here.

Main definitions:
* `IntegerType`: the integers of C, with the conversion between them;
* `Denotes`: which texts are constants, of which type and value.

Main result: `enumConstants_exact`.
-/
import Interop.C.Header
import Interop.Proofs.Model.EnumItems
import Mathlib.Data.List.Basic

namespace Interop.C

open Source Model

/-! ### Integer types -/

/-- An integer type of C. -/
structure IntegerType where
  isSigned : Bool
  width : Nat
deriving DecidableEq

namespace IntegerType

/-- The type `int`. -/
def int : IntegerType := ⟨true, 32⟩

/-- The type `unsigned int`. -/
def unsigned : IntegerType := ⟨false, 32⟩

/-- The type of the constants that `INT64_C` makes. -/
def int64 : IntegerType := ⟨true, 64⟩

/-- The type of the constants that `UINT64_C` makes. -/
def uint64 : IntegerType := ⟨false, 64⟩

/-- The types of a fixed width by their names. -/
def named : List (String × IntegerType) :=
  [("int8_t", ⟨true, 8⟩), ("int16_t", ⟨true, 16⟩), ("int32_t", ⟨true, 32⟩), ("int64_t", ⟨true, 64⟩),
    ("uint8_t", ⟨false, 8⟩), ("uint16_t", ⟨false, 16⟩), ("uint32_t", ⟨false, 32⟩),
    ("uint64_t", ⟨false, 64⟩)]

/-- The least number of a type. -/
def least (t : IntegerType) : Int := if t.isSigned then -twoPow (t.width - 1) else 0

/-- The greatest number of a type. -/
def greatest (t : IntegerType) : Int :=
  if t.isSigned then twoPow (t.width - 1) - 1 else twoPow t.width - 1

/-- Tells whether a type has a number. -/
def holds (t : IntegerType) (v : Int) : Bool := t.least ≤ v && v ≤ t.greatest

/-- What a number is converted to: the number of the type that has the same lowest bits. -/
def cast (t : IntegerType) (v : Int) : Int :=
  if t.isSigned then v.bmod (twoPow t.width) else v % twoPow t.width

/-- The type that stands for an integral type of declarations. -/
def ofPrimitive (p : Primitive) : IntegerType := ⟨p.isSigned, p.bitWidth⟩

variable {t : IntegerType} {v : Int}

lemma holds_iff : t.holds v = true ↔ t.least ≤ v ∧ v ≤ t.greatest := by
  rw [holds, Bool.and_eq_true, decide_eq_true_eq, decide_eq_true_eq]

/-- A number of a type is converted to itself. -/
lemma cast_eq_self (hwidth : 0 < t.width) (h : t.holds v = true) : t.cast v = v := by
  rw [holds_iff, least, greatest] at h
  rw [cast]
  split at h
  · rename_i hsigned
    obtain ⟨n, hn⟩ := Nat.exists_eq_succ_of_ne_zero (Nat.pos_iff_ne_zero.mp hwidth)
    rw [hn, Nat.succ_sub_one] at h
    rw [if_pos hsigned, hn, twoPow_succ]
    exact Int.bmod_eq_of_le (by omega) (by omega)
  · rename_i hsigned
    rw [if_neg hsigned]
    exact Int.emod_eq_of_lt h.1 (Int.lt_of_le_sub_one h.2)

lemma lookup_primitiveType {p : Primitive} (h : p.isIntegral = true) :
    named.lookup (primitiveType p) = some (ofPrimitive p) := by
  cases p <;> first | rfl | cases h

lemma holds_ofPrimitive {p : Primitive} (h : p.isIntegral = true) (v : Int) :
    (ofPrimitive p).holds v = p.holds v := by
  cases p <;> first | rfl | cases h

end IntegerType

/-! ### Constants -/

/-- The number that decimal digits stand for.  Digits that begin with a zero are octal, and are not
read; a zero alone is. -/
def decimal? (digits : List Char) : Option Nat :=
  if digits ≠ [] ∧ digits.all Char.isDigit = true ∧ (digits.head? = some '0' → digits = ['0']) then
    some (Nat.ofDigitChars 10 digits 0)
  else none

/-- A number in a type. -/
structure Constant where
  type : IntegerType
  value : Int
deriving DecidableEq

namespace Constant

/-- A constant of decimal digits, which must not exceed its type. -/
def ofDigits? (t : IntegerType) (digits : List Char) : Option Constant :=
  match decimal? digits with
  | some n => if t.holds n then some ⟨t, n⟩ else none
  | none => none

/-- A constant of decimal digits, or one with a minus in front.  The minus is not part of the
constant: it negates it in its type. -/
def ofNumber? (t : IntegerType) : List Char → Option Constant
  | '-' :: digits => (ofDigits? t digits).map fun c => ⟨t, t.cast (-c.value)⟩
  | digits => ofDigits? t digits

end Constant

/-- What stands before and behind a number, and the type that a constant of this form has. -/
structure Form where
  opening : String
  closing : String
  type : IntegerType
deriving DecidableEq

/-- The forms of constants.  The macros for 64 bits put a suffix behind the digits, so that a minus
in front of these stays what it is. -/
def forms : List Form :=
  [⟨"", "", .int⟩, ⟨"", "u", .unsigned⟩, ⟨"INT64_C(", ")", .int64⟩, ⟨"UINT64_C(", ")", .uint64⟩]

/-- The constants with names. -/
def leastNumbers : List (String × Constant) :=
  [("INT32_MIN", ⟨.int, IntegerType.int.least⟩), ("INT64_MIN", ⟨.int64, IntegerType.int64.least⟩)]

/-- A text is read as a constant. -/
inductive Denotes : String → Constant → Prop
  | number {f : Form} {text : String} {c : Constant} (hf : f ∈ forms)
    (h : Constant.ofNumber? f.type text.toList = some c) :
    Denotes (f.opening ++ text ++ f.closing) c
  | least {name : String} {c : Constant} (h : (name, c) ∈ leastNumbers) : Denotes name c

/-! ### What a text is read as -/

/-- Tells whether a character belongs to a number. -/
def isNumberChar (c : Char) : Bool := c.isDigit || c = '-'

/-- A text without its numbers, which gives away the form of a constant. -/
def frame (text : String) : List Char := text.toList.filter fun c => !isNumberChar c

lemma frame_append (s t : String) : frame (s ++ t) = frame s ++ frame t := by
  rw [frame, String.toList_append, List.filter_append, frame, frame]

lemma frames_spec :
    (∀ f ∈ forms, ∀ g ∈ forms, frame f.opening ++ frame f.closing =
      frame g.opening ++ frame g.closing → f = g) ∧
    (∀ f ∈ forms, ∀ x ∈ leastNumbers, frame f.opening ++ frame f.closing ≠ frame x.1) ∧
    ∀ x ∈ leastNumbers, ∀ y ∈ leastNumbers, x.1 = y.1 → x = y := by
  decide +kernel

lemma isNumberChar_of_decimal? {digits : List Char} {n : Nat} (h : decimal? digits = some n) :
    digits.all isNumberChar = true := by
  rw [decimal?] at h
  split at h
  · rename_i hdigits
    exact List.all_eq_true.mpr fun c hc => by
      rw [isNumberChar, List.all_eq_true.mp hdigits.2.1 c hc, Bool.true_or]
  · cases h

lemma Constant.isNumberChar_of_ofDigits? {t : IntegerType} {digits : List Char} {c : Constant}
    (h : ofDigits? t digits = some c) : digits.all isNumberChar = true := by
  rw [ofDigits?] at h
  split at h
  · exact isNumberChar_of_decimal? ‹_›
  · cases h

lemma Constant.isNumberChar_of_ofNumber? {t : IntegerType} {text : List Char} {c : Constant}
    (h : ofNumber? t text = some c) : text.all isNumberChar = true := by
  rw [ofNumber?.eq_def] at h
  split at h
  · obtain ⟨d, hd, -⟩ := Option.map_eq_some_iff.mp h
    rw [List.all_cons, isNumberChar_of_ofDigits? hd]
    rfl
  · exact isNumberChar_of_ofDigits? h

lemma frame_number {f : Form} {text : String} {c : Constant}
    (h : Constant.ofNumber? f.type text.toList = some c) :
    frame (f.opening ++ text ++ f.closing) = frame f.opening ++ frame f.closing := by
  have hnumber : frame text = [] := by
    rw [frame, List.filter_eq_nil_iff]
    intro d hd
    rw [List.all_eq_true.mp (Constant.isNumberChar_of_ofNumber? h) d hd]
    decide
  rw [frame_append, frame_append, hnumber, List.append_nil]

/-- A text is read as one constant. -/
lemma Denotes.unique {text : String} {c d : Constant} (hc : Denotes text c) (hd : Denotes text d) :
    c = d := by
  obtain ⟨hforms, hapart, hleast⟩ := frames_spec
  generalize htext : text = text' at hd
  cases hc with
  | @number f number c hf hnumber =>
    cases hd with
    | @number g number' d hg hnumber' =>
      have hframe : frame f.opening ++ frame f.closing = frame g.opening ++ frame g.closing := by
        rw [← frame_number hnumber, ← frame_number hnumber', htext]
      obtain rfl := hforms f hf g hg hframe
      have hsame : number = number' := by
        rw [String.append_left_inj, String.append_right_inj] at htext
        exact htext
      rw [hsame, hnumber'] at hnumber
      exact (Option.some.inj hnumber).symm
    | least h =>
      rw [← htext] at h
      exact absurd (frame_number hnumber).symm (hapart f hf _ h)
  | least h =>
    subst htext
    cases hd with
    | @number g number' d hg hnumber' =>
      exact absurd (frame_number hnumber').symm (hapart g hg _ h)
    | least h' => exact congrArg Prod.snd (hleast _ h _ h' rfl)

/-! ### Written numbers -/

lemma head?_toDigits {n : Nat} (hn : n ≠ 0) : (Nat.toDigits 10 n).head? ≠ some '0' := by
  induction n using Nat.strongRecOn with
  | ind n ih =>
    by_cases hlt : n < 10
    · have hdigits : ∀ k < 10, k ≠ 0 → [k.digitChar].head? ≠ some '0' := by decide
      rw [Nat.toDigits_of_lt_base hlt]
      exact hdigits n hlt hn
    · -- the first digits are those of the tenth
      rw [Nat.toDigits_of_base_le (by decide) (by omega),
        List.head?_append_of_ne_nil _ Nat.toDigits_ne_nil]
      exact ih (n / 10) (by omega) (by omega)

lemma decimal?_toDigits (n : Nat) : decimal? (Nat.toDigits 10 n) = some n := by
  have hall : (Nat.toDigits 10 n).all Char.isDigit = true :=
    List.all_eq_true.mpr fun c => Nat.isDigit_of_mem_toDigits (by decide) (by decide)
  have hzero : (Nat.toDigits 10 n).head? = some '0' → Nat.toDigits 10 n = ['0'] := by
    intro hhead
    by_cases hn : n = 0
    · rw [hn, Nat.toDigits_zero]
    · exact absurd hhead (head?_toDigits hn)
  rw [decimal?, if_pos ⟨Nat.toDigits_ne_nil, hall, hzero⟩, Nat.ofDigitChars_ten_toDigits]

namespace Constant

variable {t : IntegerType}

lemma ofDigits?_toDigits {n : Nat} (h : t.holds n = true) :
    ofDigits? t (Nat.toDigits 10 n) = some ⟨t, n⟩ := by
  rw [ofDigits?, decimal?_toDigits]
  exact if_pos h

/-- Without a minus in front, a number consists of digits. -/
lemma ofNumber?_toDigits (n : Nat) :
    ofNumber? t (Nat.toDigits 10 n) = ofDigits? t (Nat.toDigits 10 n) := by
  rw [ofNumber?.eq_def]
  split
  · rename_i digits hdigits
    have hminus : '-' ∈ Nat.toDigits 10 n := hdigits ▸ List.mem_cons_self
    cases Nat.isDigit_of_mem_toDigits (by decide) (by decide) hminus
  · rfl

/-- A number is written as itself in a type that has it and, if there is a minus, its negation. -/
lemma ofNumber?_toString {v : Int} (hwidth : 0 < t.width) (h : t.holds v = true)
    (hneg : v < 0 → t.holds (-v) = true) : ofNumber? t (toString v).toList = some ⟨t, v⟩ := by
  have htext : (toString v).toList =
      if 0 ≤ v then Nat.toDigits 10 v.toNat else '-' :: Nat.toDigits 10 (-v).toNat := by
    rw [show toString v = v.repr from rfl, Int.repr_eq_if]
    split
    · rw [Nat.toList_repr]
    · rw [String.toList_append, Nat.toList_repr]
      rfl
  rw [htext]
  split
  · rename_i hv
    have hnat : ((v.toNat : Nat) : Int) = v := Int.toNat_of_nonneg hv
    rw [ofNumber?_toDigits, ofDigits?_toDigits (hnat.symm ▸ h), hnat]
  · rename_i hv
    have hnat : (((-v).toNat : Nat) : Int) = -v := Int.toNat_of_nonneg (by omega)
    have hdigits := hneg (by omega)
    rw [ofNumber?, ofDigits?_toDigits (hnat.symm ▸ hdigits), Option.map_some, hnat, Int.neg_neg,
      IntegerType.cast_eq_self hwidth h]

-- without its negation in the type, the digits exceed it or the minus gives another number
example : ofNumber? .int64 "-9223372036854775808".toList = none := by decide +kernel

example : ofNumber? .unsigned "-5".toList = some ⟨.unsigned, 4294967291⟩ := by decide +kernel

end Constant

/-! ### The constants of enums -/

/-- The form in which the values of a type are written. -/
def formOf : Primitive → Form
  | .int64 => ⟨"INT64_C(", ")", .int64⟩
  | .uint64 => ⟨"UINT64_C(", ")", .uint64⟩
  | .uint32 => ⟨"", "u", .unsigned⟩
  | _ => ⟨"", "", .int⟩

lemma formOf_mem_forms (p : Primitive) : formOf p ∈ forms := by cases p <;> decide

/-- The least numbers of 32 and 64 bits are written by name, all others with their digits. -/
lemma enumLiteral_cases (v : Int) (p : Primitive) :
    (enumLiteral v p, ⟨(formOf p).type, v⟩) ∈ leastNumbers ∨
      (p = .int32 ∨ p = .int64 → v ≠ (formOf p).type.least) ∧
        enumLiteral v p = (formOf p).opening ++ toString v ++ (formOf p).closing := by
  cases p with
  | int64 | int32 =>
    rw [enumLiteral]
    split
    · rename_i hleast
      exact .inl (hleast ▸ by decide)
    · rename_i hleast
      exact .inr ⟨fun _ => hleast, by simp [formOf, toString]⟩
  | _ => exact .inr ⟨by simp, by simp [enumLiteral, formOf, toString]⟩

/-- What fits a type fits the type of its constants, and so does its negation if it is negative,
unless it is the least number there. -/
lemma holds_formOf {p : Primitive} {v : Int} (hp : p.isIntegral = true) (hv : p.holds v = true) :
    (formOf p).type.holds v = true ∧
      (v < 0 → (p = .int32 ∨ p = .int64 → v ≠ (formOf p).type.least) →
        (formOf p).type.holds (-v) = true) := by
  rw [← IntegerType.holds_ofPrimitive hp, IntegerType.holds_iff] at hv
  rw [IntegerType.holds_iff, IntegerType.holds_iff]
  cases p with
  | bool | char | float32 | float64 => cases hp
  | _ =>
    simp [formOf, IntegerType.ofPrimitive, IntegerType.least, IntegerType.greatest,
      IntegerType.int, IntegerType.int64, IntegerType.unsigned, IntegerType.uint64,
      Primitive.isSigned, Primitive.bitWidth, twoPow] at hv ⊢
    omega

/-- In the range of its type a value is written as itself. -/
lemma denotes_enumLiteral {p : Primitive} {v : Int} (hp : p.isIntegral = true)
    (hv : p.holds v = true) : Denotes (enumLiteral v p) ⟨(formOf p).type, v⟩ := by
  rcases enumLiteral_cases v p with hleast | ⟨hne, htext⟩
  · exact .least hleast
  · obtain ⟨hholds, hneg⟩ := holds_formOf hp hv
    have hwidth : 0 < (formOf p).type.width := by cases p <;> decide
    rw [htext]
    exact .number (formOf_mem_forms p)
      (Constant.ofNumber?_toString hwidth hholds fun hv => hneg hv hne)

/-- The header defines the name of an enum as that of the integer type `t` of C, and the name of
each item as a constant that is cast to it.  Read in C, the constant is of the type that its form
gives it, and has the value of the item; the cast does not change that.  So two items are equal in
C exactly if they have the same value. -/
theorem enumConstants_exact (a : Assembly) {e : BoundEnum}
    (he : e ∈ (BindingModel.ofAssembly a).enums) (api : String) :
    ∃ t, IntegerType.named.lookup (primitiveType e.underlying) = some t ∧
      s!"typedef {primitiveType e.underlying} {e.nativeName};" ∈ (Section.enumType e).lines api ∧
      (∀ i ∈ e.items,
        s!"#define {i.symbol} (({e.nativeName}){enumLiteral i.value e.underlying})" ∈
          (Section.enumType e).lines api ∧
        (∀ c, Denotes (enumLiteral i.value e.underlying) c ↔
          c = ⟨(formOf e.underlying).type, i.value⟩) ∧
        (formOf e.underlying).type.holds i.value = true ∧ t.cast i.value = i.value) ∧
      ∀ i ∈ e.items, ∀ j ∈ e.items, ∀ c d, Denotes (enumLiteral i.value e.underlying) c →
        Denotes (enumLiteral j.value e.underlying) d →
          (t.cast c.value = t.cast d.value ↔ i.value = j.value) := by
  have hp := isIntegral_underlying a he
  have hholds := holdsItems_of_mem_enums he
  have hcast : ∀ i ∈ e.items, (IntegerType.ofPrimitive e.underlying).cast i.value = i.value := by
    intro i hi
    refine IntegerType.cast_eq_self (by cases e.underlying <;> decide) ?_
    rw [IntegerType.holds_ofPrimitive hp, hholds i hi]
  have hdenotes : ∀ i ∈ e.items, ∀ c, Denotes (enumLiteral i.value e.underlying) c →
      c = ⟨(formOf e.underlying).type, i.value⟩ :=
    fun i hi c hc => hc.unique (denotes_enumLiteral hp (hholds i hi))
  refine ⟨.ofPrimitive e.underlying, IntegerType.lookup_primitiveType hp, ?_, ?_, ?_⟩
  · exact List.mem_cons_of_mem _ List.mem_cons_self
  · intro i hi
    refine ⟨?_, fun c => ⟨hdenotes i hi c, ?_⟩, (holds_formOf hp (hholds i hi)).1, hcast i hi⟩
    · exact List.mem_cons_of_mem _ (List.mem_cons_of_mem _ (List.mem_map.mpr ⟨i, hi, rfl⟩))
    · rintro rfl
      exact denotes_enumLiteral hp (hholds i hi)
  · intro i hi j hj c d hc hd
    rw [hdenotes i hi c hc, hdenotes j hj d hd, hcast i hi, hcast j hj]

/-- The least number of 64 bits, and the one above it. -/
theorem enumConstants_exact_least :
    ∃ a e i j, Assembly.ofText ("public enum Long : long \x7b " ++
        "Least = -(1 << 63), Low = -9223372036854775807, Same = -(1 << 62) << 1 \x7d") = .ok a ∧
      e ∈ (BindingModel.ofAssembly a).enums ∧ i ∈ e.items ∧ j ∈ e.items ∧
      i.name = "Same" ∧ enumLiteral i.value e.underlying = "INT64_MIN" ∧
      (∀ c, Denotes "INT64_MIN" c ↔ c = ⟨.int64, -9223372036854775808⟩) ∧
      j.name = "Low" ∧
      "#define Long_Low ((Long)INT64_C(-9223372036854775807))" ∈
        (Section.enumType e).lines "M2N_API" ∧
      (∀ c, Denotes "INT64_C(-9223372036854775807)" c ↔ c = ⟨.int64, -9223372036854775807⟩) := by
  have hrun : (Assembly.ofText ("public enum Long : long \x7b " ++
      "Least = -(1 << 63), Low = -9223372036854775807, Same = -(1 << 62) << 1 \x7d")
      ).toOption.any (fun a => (BindingModel.ofAssembly a).enums.any fun e =>
        decide (e.nativeName = "Long" ∧ e.underlying = .int64 ∧ e.items =
          [⟨"Least", "Long_Least", -9223372036854775808⟩, ⟨"Low", "Long_Low", -9223372036854775807⟩,
            ⟨"Same", "Long_Same", -9223372036854775808⟩])) = true := by
    decide +kernel
  obtain ⟨a, ha, henums⟩ := Assembly.exists_of_any hrun
  obtain ⟨e, he, hspec⟩ := List.any_eq_true.mp henums
  obtain ⟨hname, htype, hitems⟩ := of_decide_eq_true hspec
  obtain ⟨t, -, -, hread, -⟩ := enumConstants_exact a he "M2N_API"
  rw [htype, hname, hitems] at hread
  obtain ⟨-, hleast, -⟩ := hread ⟨"Same", "Long_Same", -9223372036854775808⟩ (by decide)
  obtain ⟨hline, hlow, -⟩ := hread ⟨"Low", "Long_Low", -9223372036854775807⟩ (by decide)
  have hleastText : enumLiteral (-9223372036854775808) .int64 = "INT64_MIN" := by decide +kernel
  have hlowText : enumLiteral (-9223372036854775807) .int64 = "INT64_C(-9223372036854775807)" := by
    decide +kernel
  rw [hleastText] at hleast
  rw [hlowText] at hline hlow
  refine ⟨a, e, ⟨"Same", "Long_Same", -9223372036854775808⟩,
    ⟨"Low", "Long_Low", -9223372036854775807⟩, ha, he, ?_, ?_, rfl, ?_, hleast, rfl, hline, hlow⟩
  · rw [hitems]
    decide
  · rw [hitems]
    decide
  · rw [htype]
    exact hleastText

end Interop.C
