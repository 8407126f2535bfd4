/-
# Numbers as machine words

A number of an integral type, or a unit of `char`, is a word of the width of its type, read with a
sign if the type has one.  The numbers in the range of a type are exactly those that do not change
when they are cut to its width (`wrap_eq_self_iff`), and each word is one of them.  In 64 bits a
word is filled up with its sign or with zeros, and is still read as the same number.
-/
import Interop.Proofs.Scalar

namespace Interop.Primitive

/-- The word that a number is cut to. -/
def word (p : Primitive) (v : Int) : BitVec p.bitWidth := .ofInt p.bitWidth v

/-- The number that a word is. -/
def ofWord (p : Primitive) (b : BitVec p.bitWidth) : Int := if p.isSigned then b.toInt else b.toNat

/-- A word in 64 bits, filled up with its sign or with zeros. -/
def extend (p : Primitive) (b : BitVec p.bitWidth) : BitVec 64 :=
  if p.isSigned then b.signExtend 64 else b.setWidth 64

variable {p : Primitive} {v lo hi : Int}

/-! ### Ranges -/

lemma holds_iff (hp : p.integerRange? = some (lo, hi)) : p.holds v = true ↔ lo ≤ v ∧ v ≤ hi := by
  simp only [holds, hp, Bool.and_eq_true, decide_eq_true_eq]

lemma exists_range_of_holds (h : p.holds v = true) :
    ∃ lo hi, p.integerRange? = some (lo, hi) := by
  rw [holds] at h
  split at h
  · exact ⟨_, _, ‹_›⟩
  · cases h

lemma holds_wrap_of_range (hp : p.integerRange? = some (lo, hi)) (v : Int) :
    p.holds (p.wrap v) = true := by
  refine holds_wrap ?_ ?_ ?_ v <;>
    · rintro rfl
      cases hp

/-- A number lies in the range of a type exactly if nothing of it is lost in the width of the
type. -/
lemma wrap_eq_self_iff (hp : p.integerRange? = some (lo, hi)) :
    p.wrap v = v ↔ lo ≤ v ∧ v ≤ hi := by
  rw [← holds_iff hp]
  constructor
  · intro h
    rw [← h]
    exact holds_wrap_of_range hp v
  · exact fun h => wrap_eq_self h rfl

/-! ### Words -/

lemma ofWord_word (p : Primitive) (v : Int) : p.ofWord (p.word v) = p.wrap v := by
  rw [ofWord, word, wrap]
  split
  · exact BitVec.toInt_ofInt v
  · have hpos := Nat.two_pow_pos p.bitWidth
    rw [BitVec.toNat_ofInt]
    exact Int.toNat_of_nonneg (Int.emod_nonneg v (by omega))

lemma word_ofWord (b : BitVec p.bitWidth) : p.word (p.ofWord b) = b := by
  rw [ofWord, word]
  split
  · exact BitVec.ofInt_toInt
  · rw [BitVec.ofInt_natCast, BitVec.ofNat_toNat, BitVec.setWidth_eq]

lemma ofWord_inj {a b : BitVec p.bitWidth} : p.ofWord a = p.ofWord b ↔ a = b := by
  constructor
  · intro h
    rw [← word_ofWord a, h, word_ofWord]
  · exact congrArg p.ofWord

/-- A number of a type is the number of its word. -/
lemma ofWord_word_of_holds (h : p.holds v = true) : p.ofWord (p.word v) = v := by
  rw [ofWord_word, wrap_eq_self h rfl]

/-- Every word is a number of the type. -/
lemma holds_ofWord (hp : p.integerRange? = some (lo, hi)) (b : BitVec p.bitWidth) :
    p.holds (p.ofWord b) = true := by
  rw [← word_ofWord b, ofWord_word]
  exact holds_wrap_of_range hp _

/-! ### Words in 64 bits -/

lemma bitWidth_le (p : Primitive) : p.bitWidth ≤ 64 := by cases p <;> decide

lemma extend_eq_ofInt (b : BitVec p.bitWidth) : p.extend b = .ofInt 64 (p.ofWord b) := by
  rw [extend, ofWord]
  split
  · rfl
  · rw [BitVec.ofInt_natCast, BitVec.ofNat_toNat]

/-- In 64 bits a word is read as the number that it is. -/
lemma ofWord_extend (b : BitVec p.bitWidth) :
    (if p.isSigned then (p.extend b).toInt else ((p.extend b).toNat : Int)) = p.ofWord b := by
  rw [extend, ofWord]
  split
  · exact BitVec.toInt_signExtend_of_le p.bitWidth_le
  · rw [BitVec.toNat_setWidth_of_le p.bitWidth_le]

lemma extend_inj {a b : BitVec p.bitWidth} : p.extend a = p.extend b ↔ a = b := by
  constructor
  · intro h
    rw [← ofWord_inj, ← ofWord_extend a, h, ofWord_extend]
  · exact congrArg p.extend

end Interop.Primitive
