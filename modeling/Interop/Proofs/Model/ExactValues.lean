/-
# Constant expressions are exact

What an expression means among all integers, and what can be wrong with it: an item without a value,
a shift by too much, a number of more than 128 bits somewhere inside.  Evaluation gives the meaning
of an expression with which nothing is wrong.  Of any other it gives the first fault in the order of
evaluation.  Where that is the negation of the least number of 128 bits the fault is fatal: nothing
is reported, and the program ends (`value_of_negated_least`).

Main result: `value_exact`.
-/
import Interop.Model.Binding
import Interop.Proofs.Source.Spans
import Interop.Source.Parser
import Mathlib.Data.Int.Bitwise
import Mathlib.Tactic.Common

namespace Interop

namespace Model

section Bits

variable {w : Nat}

lemma toNat_not_and (x y : BitVec w) : (~~~x &&& y).toNat = y.toNat.ldiff x.toNat := by
  apply Nat.eq_of_testBit_eq
  intro i
  rw [Nat.testBit_ldiff, BitVec.testBit_toNat, BitVec.testBit_toNat, BitVec.testBit_toNat,
    BitVec.getLsbD_and, BitVec.getLsbD_not, Bool.and_comm]
  by_cases h : i < w
  · simp [h]
  · simp [BitVec.getLsbD_of_ge _ _ (Nat.le_of_not_lt h)]

lemma toInt_eq_negSucc {x : BitVec w} (h : x.msb = true) : x.toInt = .negSucc (~~~x).toNat := by
  have hlt := x.isLt
  rw [BitVec.toInt_eq_msb_cond, if_pos h, BitVec.toNat_not, Int.negSucc_eq]
  omega

/-- The or of two numbers of some bits is that of the integers. -/
lemma toInt_or (x y : BitVec w) : (x ||| y).toInt = Int.lor x.toInt y.toInt := by
  cases hx : x.msb with
  | false =>
    cases hy : y.msb with
    | false =>
      rw [BitVec.toInt_eq_toNat_of_msb hx, BitVec.toInt_eq_toNat_of_msb hy,
        BitVec.toInt_eq_toNat_of_msb (by rw [BitVec.msb_or, hx, hy]; rfl), BitVec.toNat_or]
      rfl
    | true =>
      rw [BitVec.toInt_eq_toNat_of_msb hx, toInt_eq_negSucc hy,
        toInt_eq_negSucc (by rw [BitVec.msb_or, hy, Bool.or_true]), BitVec.not_or, toNat_not_and]
      rfl
  | true =>
    have hmsb : (x ||| y).msb = true := by rw [BitVec.msb_or, hx, Bool.true_or]
    rw [toInt_eq_negSucc hx, toInt_eq_negSucc hmsb, BitVec.not_or]
    cases hy : y.msb with
    | false =>
      rw [BitVec.toInt_eq_toNat_of_msb hy, BitVec.and_comm, toNat_not_and]
      rfl
    | true =>
      rw [toInt_eq_negSucc hy, BitVec.toNat_and]
      rfl

end Bits

/-! ### Numbers of 128 bits -/

/-- The signed numbers of 128 bits. -/
def IsWide (v : Int) : Prop := -2 ^ 127 ≤ v ∧ v < 2 ^ 127

instance : DecidablePred IsWide := fun _ => inferInstanceAs (Decidable (_ ∧ _))

lemma fits128_iff {v : Int} : fits128 v = true ↔ IsWide v := by
  rw [fits128, Bool.and_eq_true, decide_eq_true_eq, decide_eq_true_eq]
  exact Iff.rfl

lemma or128_eq_lor {v w : Int} (hv : IsWide v) (hw : IsWide w) : or128 v w = Int.lor v w := by
  rw [or128, toInt_or, BitVec.toInt_ofInt_eq_self (by decide) hv.1 hv.2,
    BitVec.toInt_ofInt_eq_self (by decide) hw.1 hw.2]

lemma isWide_or128 (v w : Int) : IsWide (or128 v w) := ⟨BitVec.le_toInt _, BitVec.toInt_lt⟩

end Model

namespace Source.EnumExpr

open Model

/-! ### What expressions mean -/

/-- An expression with the expressions in it, in the order of evaluation: itself it is the last. -/
def parts : EnumExpr → List EnumExpr
  | literal value span => [literal value span]
  | item name span => [item name span]
  | negate operand span => operand.parts ++ [negate operand span]
  | shiftLeft left right => left.parts ++ right.parts ++ [shiftLeft left right]
  | bitOr left right => left.parts ++ right.parts ++ [bitOr left right]

section

variable (values : List (String × Int))

/-- The value of an expression among all integers, however large. -/
inductive Means : EnumExpr → Int → Prop
  | literal (value : UInt64) (span : Span) : Means (.literal value span) value.toNat
  | item {name : String} {v : Int} (span : Span) (h : values.lookup name = some v) :
    Means (.item name span) v
  | negate {operand : EnumExpr} {v : Int} (span : Span) (h : Means operand v) :
    Means (.negate operand span) (-v)
  | shiftLeft {left right : EnumExpr} {v : Int} {amount : Nat} (hleft : Means left v)
    (hright : Means right amount) : Means (.shiftLeft left right) (v * 2 ^ amount)
  | bitOr {left right : EnumExpr} {v w : Int} (hleft : Means left v) (hright : Means right w) :
    Means (.bitOr left right) (Int.lor v w)

/-- What keeps an expression from having a value, apart from the expressions in it. -/
inductive IsInvalid : EnumExpr → Prop
  | unknownItem {name : String} (span : Span) (h : values.lookup name = none) :
    IsInvalid (.item name span)
  | shiftAmount {left right : EnumExpr} {amount : Int} (hamount : right.Means values amount)
    (h : amount < 0 ∨ 63 < amount) : IsInvalid (.shiftLeft left right)
  | tooWide {e : EnumExpr} {v : Int} (hv : e.Means values v) (h : ¬ IsWide v) : IsInvalid e

/-- The fault that an operator or a name raises when its operands have got values. -/
inductive Raises : EnumExpr → ExprFault → Prop
  | unknownItem {name : String} (span : Span) (h : values.lookup name = none) :
    Raises (.item name span) (.unknownItem name)
  | shiftAmount {left right : EnumExpr} {amount : Int} (hamount : right.Means values amount)
    (h : amount < 0 ∨ 63 < amount) : Raises (.shiftLeft left right) (.shiftAmount amount)
  | shiftOverflow {left right : EnumExpr} {v : Int} {amount : Nat} (hleft : left.Means values v)
    (hright : right.Means values amount) (hamount : amount ≤ 63) (h : ¬ IsWide (v * 2 ^ amount)) :
    Raises (.shiftLeft left right) .shiftOverflow
  | negationOverflow {operand : EnumExpr} (span : Span) (h : operand.Means values (-2 ^ 127)) :
    Raises (.negate operand span) .negationOverflow

/-- Some expressions raise no faults. -/
def Sound (es : List EnumExpr) : Prop := ∀ e ∈ es, ∀ fault, ¬ e.Raises values fault

/-- The first of some expressions that raises a fault raises this one. -/
def FirstFault (es : List EnumExpr) (fault : ExprFault) : Prop :=
  ∃ before part after, es = before ++ part :: after ∧ Sound values before ∧
    part.Raises values fault

/-- Evaluation gives the value of an expression that raises no fault, or the first fault. -/
structure Evaluates (e : EnumExpr) : Prop where
  ok : ∀ v, e.value values = .ok v → e.Means values v ∧ IsWide v ∧ Sound values e.parts
  error : ∀ fault, e.value values = .error fault → FirstFault values e.parts fault

end

variable {values : List (String × Int)}

lemma Means.unique {e : EnumExpr} {v w : Int} (h : e.Means values v) (h' : e.Means values w) :
    v = w := by
  induction h generalizing w with
  | literal => cases h'; rfl
  | item _ h =>
    cases h' with
    | item _ h' => exact Option.some.inj (h.symm.trans h')
  | negate _ _ ih =>
    cases h' with
    | negate _ h' => rw [ih h']
  | shiftLeft _ _ ihleft ihright =>
    cases h' with
    | shiftLeft hleft hright => rw [ihleft hleft, Int.ofNat_inj.mp (ihright hright)]
  | bitOr _ _ ihleft ihright =>
    cases h' with
    | bitOr hleft hright => rw [ihleft hleft, ihright hright]

/-! ### Parts -/

/-- The parts of a part are parts. -/
lemma parts_subset {e part : EnumExpr} (h : part ∈ e.parts) : part.parts ⊆ e.parts := by
  induction e with
  | literal | item =>
    obtain rfl := List.mem_singleton.mp h
    exact List.Subset.refl _
  | negate operand span ih =>
    rcases List.mem_append.mp h with h | h
    · exact List.subset_append_of_subset_left _ (ih h)
    · obtain rfl := List.mem_singleton.mp h
      exact List.Subset.refl _
  | shiftLeft left right ihleft ihright | bitOr left right ihleft ihright =>
    rcases List.mem_append.mp h with h | h
    · refine List.subset_append_of_subset_left _ ?_
      rcases List.mem_append.mp h with h | h
      · exact List.subset_append_of_subset_left _ (ihleft h)
      · exact List.subset_append_of_subset_right _ (ihright h)
    · obtain rfl := List.mem_singleton.mp h
      exact List.Subset.refl _

/-! ### The first fault -/

lemma Raises.unique {e : EnumExpr} {fault fault' : ExprFault} (h : e.Raises values fault)
    (h' : e.Raises values fault') : fault = fault' := by
  cases h with
  | unknownItem => cases h'; rfl
  | negationOverflow => cases h'; rfl
  | shiftAmount hamount h =>
    cases h' with
    | shiftAmount hamount' => rw [hamount.unique hamount']
    | shiftOverflow _ hright hle =>
      obtain rfl := hamount.unique hright
      omega
  | shiftOverflow _ hright hle =>
    cases h' with
    | shiftAmount hamount h =>
      obtain rfl := hright.unique hamount
      omega
    | shiftOverflow => rfl

lemma Sound.append {es es' : List EnumExpr} (h : Sound values es) (h' : Sound values es') :
    Sound values (es ++ es') :=
  List.forall_mem_append.mpr ⟨h, h'⟩

lemma FirstFault.append_right {es : List EnumExpr} {fault : ExprFault}
    (h : FirstFault values es fault) (es' : List EnumExpr) :
    FirstFault values (es ++ es') fault := by
  obtain ⟨before, part, after, rfl, hbefore, hraises⟩ := h
  exact ⟨before, part, after ++ es', by rw [List.append_assoc, List.cons_append], hbefore, hraises⟩

lemma FirstFault.append_left {es es' : List EnumExpr} {fault : ExprFault} (hes : Sound values es)
    (h : FirstFault values es' fault) : FirstFault values (es ++ es') fault := by
  obtain ⟨before, part, after, rfl, hbefore, hraises⟩ := h
  exact ⟨es ++ before, part, after, by rw [List.append_assoc], hes.append hbefore, hraises⟩

lemma Raises.firstFault {e : EnumExpr} {fault : ExprFault} (h : e.Raises values fault) :
    FirstFault values [e] fault :=
  ⟨[], e, [], rfl, nofun, h⟩

lemma FirstFault.not_sound {es : List EnumExpr} {fault : ExprFault}
    (h : FirstFault values es fault) : ¬ Sound values es := by
  obtain ⟨before, part, after, rfl, -, hraises⟩ := h
  exact fun hsound => hsound part (List.mem_append_right _ List.mem_cons_self) fault hraises

/-- There is one first fault at most. -/
lemma FirstFault.unique {es : List EnumExpr} {fault fault' : ExprFault}
    (h : FirstFault values es fault) (h' : FirstFault values es fault') : fault = fault' := by
  obtain ⟨before, part, after, rfl, hbefore, hraises⟩ := h
  obtain ⟨before', part', after', heq, hbefore', hraises'⟩ := h'
  -- what stands before the one cannot reach the other
  rcases List.append_eq_append_iff.mp heq with ⟨between, rfl, hbetween⟩ | ⟨between, rfl, hbetween⟩
  · cases between with
    | nil =>
      obtain rfl := (List.cons.inj hbetween).1
      exact hraises.unique hraises'
    | cons x between =>
      obtain rfl := (List.cons.inj hbetween).1
      exact absurd hraises (hbefore' _ (List.mem_append_right _ List.mem_cons_self) fault)
  · cases between with
    | nil =>
      obtain rfl := (List.cons.inj hbetween).1
      exact hraises.unique hraises'
    | cons x between =>
      obtain rfl := (List.cons.inj hbetween).1
      exact absurd hraises' (hbefore _ (List.mem_append_right _ List.mem_cons_self) fault')

/-! ### One operator -/

lemma Evaluates.of_ok {e : EnumExpr} {v : Int} (hvalue : e.value values = .ok v)
    (hmeans : e.Means values v) (hwide : IsWide v) (hsound : Sound values e.parts) :
    e.Evaluates values := by
  refine ⟨fun w hw => ?_, fun fault hfault => ?_⟩
  · obtain rfl := Except.ok.inj (hvalue.symm.trans hw)
    exact ⟨hmeans, hwide, hsound⟩
  · rw [hvalue] at hfault
    cases hfault

lemma Evaluates.of_error {e : EnumExpr} {fault : ExprFault} (hvalue : e.value values = .error fault)
    (hfirst : FirstFault values e.parts fault) : e.Evaluates values := by
  refine ⟨fun v hv => ?_, fun fault' hfault => ?_⟩
  · rw [hvalue] at hv
    cases hv
  · obtain rfl := Except.error.inj (hvalue.symm.trans hfault)
    exact hfirst

lemma evaluates_literal (value : UInt64) (span : Span) :
    Evaluates values (.literal value span) := by
  have hwide : IsWide value.toNat := by
    have := value.toNat_lt
    constructor <;> omega
  exact .of_ok rfl (.literal value span) hwide (List.forall_mem_singleton.mpr nofun)

lemma evaluates_item (hvalues : ∀ x ∈ values, -2 ^ 63 ≤ x.2 ∧ x.2 < 2 ^ 64) (name : String)
    (span : Span) : Evaluates values (.item name span) := by
  cases hlookup : values.lookup name with
  | none => exact .of_error (by rw [value, hlookup]) (Raises.unknownItem span hlookup).firstFault
  | some v =>
    have hwide : IsWide v := by
      obtain ⟨_, _, hmem, -⟩ := List.lookup_eq_some_iff.mp hlookup
      have := hvalues (name, v) (by simp [hmem])
      constructor <;> omega
    refine .of_ok (by rw [value, hlookup]) (.item span hlookup) hwide
      (List.forall_mem_singleton.mpr fun fault hraises => ?_)
    cases hraises with
    | unknownItem _ hnone =>
      rw [hlookup] at hnone
      cases hnone

lemma Evaluates.negate {operand : EnumExpr} (span : Span) (h : operand.Evaluates values) :
    Evaluates values (.negate operand span) := by
  cases hoperand : operand.value values with
  | error fault =>
    refine .of_error ?_ ((h.error fault hoperand).append_right _)
    rw [value, hoperand]
    rfl
  | ok v =>
    obtain ⟨hmeans, hwide, hsound⟩ := h.ok v hoperand
    have hvalue : (EnumExpr.negate operand span).value values =
        if fits128 (-v) then .ok (-v) else .error .negationOverflow := by
      rw [value, hoperand]
      rfl
    by_cases hleast : v = -2 ^ 127
    · subst hleast
      exact .of_error hvalue (.append_left hsound (Raises.negationOverflow span hmeans).firstFault)
    · have hwide' : IsWide (-v) := by
        obtain ⟨hlo, hhi⟩ := hwide
        constructor <;> omega
      rw [if_pos (fits128_iff.mpr hwide')] at hvalue
      refine .of_ok hvalue (.negate span hmeans) hwide'
        (hsound.append (List.forall_mem_singleton.mpr fun fault hraises => ?_))
      cases hraises with
      | negationOverflow _ hmeans' => exact hleast (hmeans.unique hmeans')

/-- An operator with two operands: the first fault of one of them is found, and where they raise
none the operator decides. -/
lemma Evaluates.binary {e left right : EnumExpr} {f : Int → Int → Except ExprFault Int}
    (hleft : left.Evaluates values) (hright : right.Evaluates values)
    (hparts : e.parts = left.parts ++ right.parts ++ [e])
    (hvalue : e.value values = do f (← left.value values) (← right.value values))
    (hok : ∀ v w, left.Means values v → IsWide v → right.Means values w → IsWide w →
      e.value values = f v w → Sound values (left.parts ++ right.parts) → e.Evaluates values) :
    e.Evaluates values := by
  cases hl : left.value values with
  | error fault =>
    rw [hl] at hvalue
    refine .of_error hvalue ?_
    rw [hparts]
    exact ((hleft.error fault hl).append_right _).append_right _
  | ok v =>
    obtain ⟨hmeansl, hwidel, hsoundl⟩ := hleft.ok v hl
    cases hr : right.value values with
    | error fault =>
      rw [hl, hr] at hvalue
      refine .of_error hvalue ?_
      rw [hparts]
      exact (FirstFault.append_left hsoundl (hright.error fault hr)).append_right _
    | ok w =>
      obtain ⟨hmeansr, hwider, hsoundr⟩ := hright.ok w hr
      rw [hl, hr] at hvalue
      exact hok v w hmeansl hwidel hmeansr hwider hvalue (hsoundl.append hsoundr)

lemma Evaluates.bitOr {left right : EnumExpr} (hleft : left.Evaluates values)
    (hright : right.Evaluates values) : Evaluates values (.bitOr left right) := by
  refine hleft.binary hright rfl rfl ?_
  intro v w hmeansl hwidel hmeansr hwider hvalue hsound
  have hor := or128_eq_lor hwidel hwider
  have hwide : IsWide (Int.lor v w) := hor ▸ isWide_or128 v w
  refine .of_ok ?_ (.bitOr hmeansl hmeansr) hwide
    (hsound.append (List.forall_mem_singleton.mpr nofun))
  rw [hvalue, ← hor]
  rfl

lemma Evaluates.shiftLeft {left right : EnumExpr} (hleft : left.Evaluates values)
    (hright : right.Evaluates values) : Evaluates values (.shiftLeft left right) := by
  refine hleft.binary hright rfl rfl ?_
  intro v amount hmeansl _ hmeansr _ hvalue hsound
  dsimp only at hvalue
  by_cases hamount : amount < 0 ∨ 64 ≤ amount
  · rw [if_pos hamount] at hvalue
    exact .of_error hvalue (.append_left hsound
      (Raises.shiftAmount hmeansr (by omega)).firstFault)
  · rw [if_neg hamount] at hvalue
    obtain ⟨n, rfl⟩ := Int.eq_ofNat_of_zero_le (a := amount) (by omega)
    have hshifted : v * (twoPow (n : Int).toNat : Int) = v * 2 ^ n := by
      rw [Int.toNat_natCast]
      rfl
    rw [hshifted] at hvalue
    by_cases hwide : IsWide (v * 2 ^ n)
    · rw [if_pos (fits128_iff.mpr hwide)] at hvalue
      refine .of_ok hvalue (.shiftLeft hmeansl hmeansr) hwide
        (hsound.append (List.forall_mem_singleton.mpr fun fault hraises => ?_))
      cases hraises with
      | shiftAmount hmeans' h =>
        obtain rfl := hmeansr.unique hmeans'
        omega
      | shiftOverflow hmeans hmeans' _ h =>
        obtain rfl := hmeansl.unique hmeans
        obtain rfl := Int.ofNat_inj.mp (hmeansr.unique hmeans')
        exact h hwide
    · rw [if_neg (mt fits128_iff.mp hwide)] at hvalue
      exact .of_error hvalue (.append_left hsound
        (Raises.shiftOverflow hmeansl hmeansr (by omega) hwide).firstFault)

/-! ### Whole expressions -/

lemma evaluates (hvalues : ∀ x ∈ values, -2 ^ 63 ≤ x.2 ∧ x.2 < 2 ^ 64) (e : EnumExpr) :
    e.Evaluates values := by
  induction e with
  | literal value span => exact evaluates_literal value span
  | item name span => exact evaluates_item hvalues name span
  | negate operand span ih => exact ih.negate span
  | shiftLeft left right ihleft ihright => exact ihleft.shiftLeft ihright
  | bitOr left right ihleft ihright => exact ihleft.bitOr ihright

lemma Raises.isInvalid {e : EnumExpr} {fault : ExprFault} (h : e.Raises values fault) :
    e.IsInvalid values := by
  cases h with
  | unknownItem span h => exact .unknownItem span h
  | shiftAmount hamount h => exact .shiftAmount hamount h
  | shiftOverflow hleft hright _ h => exact .tooWide (.shiftLeft hleft hright) h
  | negationOverflow span h => exact .tooWide (.negate span h) (by decide)

/-- Where no part raises a fault, none is invalid. -/
lemma not_isInvalid_of_sound (hvalues : ∀ x ∈ values, -2 ^ 63 ≤ x.2 ∧ x.2 < 2 ^ 64)
    {e part : EnumExpr} (hsound : Sound values e.parts) (hpart : part ∈ e.parts) :
    ¬ part.IsInvalid values := by
  intro hinvalid
  cases hvalue : part.value values with
  | error fault =>
    refine ((evaluates hvalues part).error fault hvalue).not_sound fun p hp => ?_
    exact hsound p (parts_subset hpart hp)
  | ok v =>
    obtain ⟨hmeans, hwide, -⟩ := (evaluates hvalues part).ok v hvalue
    cases hinvalid with
    | unknownItem span h => exact hsound _ hpart _ (.unknownItem span h)
    | shiftAmount hamount h => exact hsound _ hpart _ (.shiftAmount hamount h)
    | tooWide hv h => exact h (hmeans.unique hv ▸ hwide)

/-- Evaluation is exact.  An expression is given no value but its own.  It is given a fault exactly
if an item in it has no value, a shift is by less than 0 or more than 63, or a number in it has more
than 128 bits.  And the fault is the first that a part raises, in the order of evaluation: it is
fatal exactly if that part is the negation of the least number of 128 bits. -/
theorem value_exact (hvalues : ∀ x ∈ values, -2 ^ 63 ≤ x.2 ∧ x.2 < 2 ^ 64) (e : EnumExpr) :
    (∀ v, e.value values = .ok v → e.Means values v) ∧
    ((∃ fault, e.value values = .error fault) ↔ ∃ part ∈ e.parts, part.IsInvalid values) ∧
    (∀ fault, e.value values = .error fault ↔
      ∃ before part after, e.parts = before ++ part :: after ∧
        (∀ p ∈ before, ∀ fault', ¬ p.Raises values fault') ∧ part.Raises values fault) ∧
    ((∃ fault, e.value values = .error fault ∧ fault.isFatal = true) ↔
      ∃ before operand span after, e.parts = before ++ .negate operand span :: after ∧
        (∀ p ∈ before, ∀ fault, ¬ p.Raises values fault) ∧ operand.Means values (-2 ^ 127)) := by
  have hexact := evaluates hvalues e
  have hfirst : ∀ fault, e.value values = .error fault ↔ FirstFault values e.parts fault := by
    intro fault
    refine ⟨hexact.error fault, fun h => ?_⟩
    cases hvalue : e.value values with
    | ok v => exact absurd (hexact.ok v hvalue).2.2 h.not_sound
    | error fault' => rw [(hexact.error fault' hvalue).unique h]
  refine ⟨fun v hv => (hexact.ok v hv).1, ⟨?_, ?_⟩, hfirst, ⟨?_, ?_⟩⟩
  · rintro ⟨fault, hfault⟩
    obtain ⟨before, part, after, hparts, -, hraises⟩ := hexact.error fault hfault
    refine ⟨part, ?_, hraises.isInvalid⟩
    rw [hparts]
    exact List.mem_append_right _ List.mem_cons_self
  · rintro ⟨part, hpart, hinvalid⟩
    cases hvalue : e.value values with
    | ok v =>
      have hsound := (hexact.ok v hvalue).2.2
      exact absurd hinvalid (not_isInvalid_of_sound hvalues hsound hpart)
    | error fault => exact ⟨fault, rfl⟩
  · rintro ⟨fault, hfault, hfatal⟩
    obtain ⟨before, part, after, hparts, hbefore, hraises⟩ := (hfirst fault).mp hfault
    cases hraises with
    | negationOverflow span h => exact ⟨before, _, span, after, hparts, hbefore, h⟩
    | unknownItem | shiftAmount | shiftOverflow => cases hfatal
  · rintro ⟨before, operand, span, after, hparts, hbefore, hleast⟩
    exact ⟨.negationOverflow, (hfirst _).mpr
      ⟨before, _, after, hparts, hbefore, .negationOverflow span hleast⟩, rfl⟩

/-- A number literal that stands nowhere. -/
def number (value : UInt64) : EnumExpr := .literal value .nowhere

/-- The least number of 128 bits: `-(1 << 63 << 63) << 1`. -/
def leastNumber : EnumExpr :=
  .shiftLeft (.negate (.shiftLeft (.shiftLeft (number 1) (number 63)) (number 63)) .nowhere)
    (number 1)

/-- The least number itself is a value, here with the bits of an item in it. -/
theorem value_exact_least :
    let e : EnumExpr := .bitOr leastNumber (.item "A" .nowhere)
    (∀ x ∈ [("A", (5 : Int))], -2 ^ 63 ≤ x.2 ∧ x.2 < 2 ^ 64) ∧
      e.value [("A", 5)] = .ok (-2 ^ 127 + 5) ∧ e.Means [("A", 5)] (-2 ^ 127 + 5) ∧
      ∀ part ∈ e.parts, ¬ part.IsInvalid [("A", 5)] := by
  intro e
  have hvalue : e.value [("A", 5)] = .ok (-2 ^ 127 + 5) := by rfl
  have hvalues : ∀ x ∈ [("A", (5 : Int))], -2 ^ 63 ≤ x.2 ∧ x.2 < 2 ^ 64 := by decide
  obtain ⟨hmeans, herror, -, -⟩ := value_exact hvalues e
  refine ⟨hvalues, hvalue, hmeans _ hvalue, fun part hpart hinvalid => ?_⟩
  obtain ⟨fault, hfault⟩ := herror.mpr ⟨part, hpart, hinvalid⟩
  rw [hvalue] at hfault
  cases hfault

/-- The negation of the least number is given neither a value nor a fault that can be reported: the
program ends where it binds an enum with this item. -/
theorem value_of_negated_least :
    (EnumExpr.negate leastNumber .nowhere).value [] = .error .negationOverflow ∧
      ExprFault.negationOverflow.isFatal = true ∧
      ∃ a e, Assembly.ofText "public enum E \x7b A = -(-(1 << 63 << 63) << 1) \x7d" = .ok a ∧
        BindingModel.bind a = .error e ∧
        e.fault = .invalidEnum ⟨[], "E"⟩ (.item "A" .negationOverflow) := by
  refine ⟨by rfl, rfl, ?_⟩
  have hrun : (Assembly.ofText
      "public enum E \x7b A = -(-(1 << 63 << 63) << 1) \x7d").toOption.any (fun a =>
        match BindingModel.bind a with
        | .ok _ => false
        | .error e => e.fault = .invalidEnum ⟨[], "E"⟩ (.item "A" .negationOverflow)) = true := by
    decide +kernel
  obtain ⟨a, ha, hend⟩ := Assembly.exists_of_any hrun
  cases hbind : BindingModel.bind a with
  | ok m =>
    rw [hbind] at hend
    cases hend
  | error e =>
    rw [hbind] at hend
    exact ⟨a, e, ha, hbind, of_decide_eq_true hend⟩

end Source.EnumExpr

end Interop
