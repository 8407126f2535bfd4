/-
# Reading undoes writing

The octets of a text are read as that text, and octets that are read as a text are those of the
text.  Both come from the same for one character, where the first octet tells which of the four
forms it has.
-/
import Interop.Text.Utf8
import Mathlib.Tactic.Common

namespace Interop.Text

namespace Utf8

/-! ### The octets behind the first -/

lemma readTail_cons {code taken lo hi x : Nat} (hx : x < 64) (hlo : lo ≤ x + 0x80)
    (hhi : x + 0x80 ≤ hi) (ranges : List (Nat × Nat)) (bs : List UInt8) :
    readTail code taken ((lo, hi) :: ranges) (UInt8.ofNat (x + 0x80) :: bs) =
      readTail (code * 64 + x) (taken + 1) ranges bs := by
  have hb : (UInt8.ofNat (x + 0x80)).toNat = x + 0x80 := by
    rw [UInt8.toNat_ofNat']
    omega
  rw [readTail, hb, if_pos ⟨hlo, hhi⟩, Nat.add_sub_cancel]

lemma of_readTail_cons {code taken lo hi : Nat} {ranges : List (Nat × Nat)} {bs : List UInt8}
    {r : Nat × List UInt8} (h : readTail code taken ((lo, hi) :: ranges) bs = .ok r) :
    ∃ b bs', bs = b :: bs' ∧ lo ≤ b.toNat ∧ b.toNat ≤ hi ∧
      readTail (code * 64 + (b.toNat - 0x80)) (taken + 1) ranges bs' = .ok r := by
  cases bs with
  | nil => cases h
  | cons b bs =>
    rw [readTail] at h
    split at h
    · rename_i hrange
      exact ⟨b, bs, rfl, hrange.1, hrange.2, h⟩
    · cases h

lemma of_readTail_nil {code taken : Nat} {bs rest : List UInt8} {n : Nat}
    (h : readTail code taken [] bs = .ok (n, rest)) : n = code ∧ rest = bs := by
  obtain ⟨h₁, h₂⟩ := Prod.mk.inj (Except.ok.inj h)
  exact ⟨h₁.symm, h₂.symm⟩

/-! ### One character -/

/-- The numbers that are characters. -/
lemma toNat_valid (c : Char) :
    c.val.toNat < 0xd800 ∨ 0xdfff < c.val.toNat ∧ c.val.toNat < 0x110000 := c.valid

lemma toNat_val_ofNat {n : Nat} (h : n < 0xd800 ∨ 0xdfff < n ∧ n < 0x110000) :
    (Char.ofNat n).val.toNat = n := by
  have hvalid : n.isValidChar := h
  rw [Char.ofNat, dif_pos hvalid]
  rfl

lemma ofNat_eq_of_toNat {x : Nat} {b : UInt8} (h : x = b.toNat) : UInt8.ofNat x = b := by
  rw [h, UInt8.ofNat_toNat]

lemma toNat_ofNat_of_lt {x : Nat} (h : x < 256) : (UInt8.ofNat x).toNat = x := by
  rw [UInt8.toNat_ofNat']
  omega

/-- The octets of a character are read as that character. -/
lemma readChar_utf8EncodeChar (c : Char) (rest : List UInt8) :
    ∃ b bs, String.utf8EncodeChar c = b :: bs ∧ readChar b (bs ++ rest) = .ok (c, rest) := by
  have hvalid := toNat_valid c
  have hofNat : Char.ofNat c.val.toNat = c := Char.ofNat_toNat c
  unfold String.utf8EncodeChar
  generalize c.val.toNat = v at hvalid hofNat
  dsimp only
  -- the first octet of each form is in the range by which `head?` knows the form
  split
  · refine ⟨_, _, rfl, ?_⟩
    have hhead : head? v = some (v, []) := by
      rw [head?, if_pos (by omega)]
    rw [readChar, toNat_ofNat_of_lt (by omega), hhead]
    simp only [List.nil_append, readTail, Except.map, hofNat]
  · split
    · refine ⟨_, _, rfl, ?_⟩
      have hhead : head? (v / 64 % 0x20 + 0xc0) = some (v / 64, [tail]) := by
        have hcode : v / 64 % 0x20 + 0xc0 - 0xc0 = v / 64 := by omega
        rw [head?, if_neg (by omega), if_neg (by omega), if_pos (by omega), hcode]
      rw [readChar, toNat_ofNat_of_lt (by omega), hhead]
      simp only [List.cons_append, List.nil_append, tail]
      rw [readTail_cons (by omega) (by omega) (by omega)]
      have hv : v / 64 * 64 + v % 0x40 = v := by omega
      simp only [readTail, Except.map, hv, hofNat]
    · split
      · refine ⟨_, _, rfl, ?_⟩
        have hhead : ∃ lo hi, head? (v / 4096 % 0x10 + 0xe0) = some (v / 4096, [(lo, hi), tail]) ∧
            lo ≤ v / 64 % 0x40 + 0x80 ∧ v / 64 % 0x40 + 0x80 ≤ hi := by
          have hcode : v / 4096 % 0x10 + 0xe0 - 0xe0 = v / 4096 := by omega
          rw [head?, if_neg (by omega), if_neg (by omega), if_neg (by omega), hcode]
          split
          · exact ⟨_, _, rfl, by omega, by omega⟩
          · split
            · exact ⟨_, _, rfl, by omega, by omega⟩
            · rw [if_pos (by omega)]
              exact ⟨_, _, rfl, by omega, by omega⟩
        obtain ⟨lo, hi, hhead, hlo, hhi⟩ := hhead
        rw [readChar, toNat_ofNat_of_lt (by omega), hhead]
        simp only [List.cons_append, List.nil_append, tail]
        rw [readTail_cons (by omega) hlo hhi,
          readTail_cons (by omega) (by omega) (by omega)]
        have hv : (v / 4096 * 64 + v / 64 % 0x40) * 64 + v % 0x40 = v := by omega
        simp only [readTail, Except.map, hv, hofNat]
      · refine ⟨_, _, rfl, ?_⟩
        have hhead : ∃ lo hi, head? (v / 262144 % 0x08 + 0xf0) =
            some (v / 262144, [(lo, hi), tail, tail]) ∧
            lo ≤ v / 4096 % 0x40 + 0x80 ∧ v / 4096 % 0x40 + 0x80 ≤ hi := by
          have hcode : v / 262144 % 0x08 + 0xf0 - 0xf0 = v / 262144 := by omega
          rw [head?, if_neg (by omega), if_neg (by omega), if_neg (by omega), if_neg (by omega),
            if_neg (by omega), if_neg (by omega), hcode]
          split
          · exact ⟨_, _, rfl, by omega, by omega⟩
          · split
            · exact ⟨_, _, rfl, by omega, by omega⟩
            · rw [if_pos (by omega)]
              exact ⟨_, _, rfl, by omega, by omega⟩
        obtain ⟨lo, hi, hhead, hlo, hhi⟩ := hhead
        rw [readChar, toNat_ofNat_of_lt (by omega), hhead]
        simp only [List.cons_append, List.nil_append, tail]
        rw [readTail_cons (by omega) hlo hhi, readTail_cons (by omega) (by omega) (by omega),
          readTail_cons (by omega) (by omega) (by omega)]
        have hv : ((v / 262144 * 64 + v / 4096 % 0x40) * 64 + v / 64 % 0x40) * 64 + v % 0x40 =
            v := by omega
        simp only [readTail, Except.map, hv, hofNat]

/-- The four forms of a character, as the first octet tells them: with the ranges of the octets
behind it every character has one form only, and no surrogate has one. -/
lemma head?_cases {b code : Nat} {ranges : List (Nat × Nat)} (h : head? b = some (code, ranges)) :
    (b < 0x80 ∧ code = b ∧ ranges = []) ∨
    (0xc2 ≤ b ∧ b < 0xe0 ∧ code = b - 0xc0 ∧ ranges = [tail]) ∨
    (∃ lo hi, 0xe0 ≤ b ∧ b < 0xf0 ∧ code = b - 0xe0 ∧ ranges = [(lo, hi), tail] ∧
      0x80 ≤ lo ∧ hi ≤ 0xbf ∧ (b = 0xe0 → 0xa0 ≤ lo) ∧ (b = 0xed → hi ≤ 0x9f)) ∨
    (∃ lo hi, 0xf0 ≤ b ∧ b ≤ 0xf4 ∧ code = b - 0xf0 ∧ ranges = [(lo, hi), tail, tail] ∧
      0x80 ≤ lo ∧ hi ≤ 0xbf ∧ (b = 0xf0 → 0x90 ≤ lo) ∧ (b = 0xf4 → hi ≤ 0x8f)) := by
  rw [head?] at h
  split at h
  · obtain ⟨rfl, rfl⟩ := Prod.mk.inj (Option.some.inj h)
    exact Or.inl ⟨by omega, rfl, rfl⟩
  split at h
  · cases h
  split at h
  · obtain ⟨rfl, rfl⟩ := Prod.mk.inj (Option.some.inj h)
    exact Or.inr (Or.inl ⟨by omega, by omega, rfl, rfl⟩)
  split at h
  · obtain ⟨rfl, rfl⟩ := Prod.mk.inj (Option.some.inj h)
    exact Or.inr (Or.inr (Or.inl ⟨_, _, by omega, by omega, rfl, rfl, by omega, by omega,
      by omega, by omega⟩))
  split at h
  · obtain ⟨rfl, rfl⟩ := Prod.mk.inj (Option.some.inj h)
    exact Or.inr (Or.inr (Or.inl ⟨_, _, by omega, by omega, rfl, rfl, by omega, by omega,
      by omega, by omega⟩))
  split at h
  · obtain ⟨rfl, rfl⟩ := Prod.mk.inj (Option.some.inj h)
    exact Or.inr (Or.inr (Or.inl ⟨_, _, by omega, by omega, rfl, rfl, by omega, by omega,
      by omega, by omega⟩))
  split at h
  · obtain ⟨rfl, rfl⟩ := Prod.mk.inj (Option.some.inj h)
    exact Or.inr (Or.inr (Or.inr ⟨_, _, by omega, by omega, rfl, rfl, by omega, by omega,
      by omega, by omega⟩))
  split at h
  · obtain ⟨rfl, rfl⟩ := Prod.mk.inj (Option.some.inj h)
    exact Or.inr (Or.inr (Or.inr ⟨_, _, by omega, by omega, rfl, rfl, by omega, by omega,
      by omega, by omega⟩))
  split at h
  · obtain ⟨rfl, rfl⟩ := Prod.mk.inj (Option.some.inj h)
    exact Or.inr (Or.inr (Or.inr ⟨_, _, by omega, by omega, rfl, rfl, by omega, by omega,
      by omega, by omega⟩))
  · cases h

/-- A character is read from its own octets only. -/
lemma of_readChar {b : UInt8} {bs rest : List UInt8} {c : Char}
    (h : readChar b bs = .ok (c, rest)) : b :: bs = String.utf8EncodeChar c ++ rest := by
  rw [readChar] at h
  cases hhead : head? b.toNat with
  | none => rw [hhead] at h; cases h
  | some r =>
    obtain ⟨code, ranges⟩ := r
    rw [hhead] at h
    cases hread : readTail code 1 ranges bs with
    | error e => simp only [hread] at h; cases h
    | ok r =>
      obtain ⟨n, rest'⟩ := r
      simp only [hread] at h
      obtain ⟨rfl, rfl⟩ := Prod.mk.inj (Except.ok.inj h)
      rw [String.utf8EncodeChar]
      dsimp only
      -- the ranges keep the number in the bounds of its form, so that it is written in this form
      rcases head?_cases hhead with ⟨hb, hcode, rfl⟩ | ⟨hlo, hhi, hcode, rfl⟩ |
        ⟨lo, hi, hlo, hhi, hcode, rfl, htail, htail', hsmall, hlarge⟩ |
        ⟨lo, hi, hlo, hhi, hcode, rfl, htail, htail', hsmall, hlarge⟩
      · obtain ⟨hn, rfl⟩ := of_readTail_nil hread
        rw [toNat_val_ofNat (by omega)]
        rw [if_pos (by omega), ofNat_eq_of_toNat (b := b) (by omega)]
        rfl
      · obtain ⟨b₁, bs₁, rfl, h₁, h₁', hread⟩ := of_readTail_cons hread
        obtain ⟨hn, rfl⟩ := of_readTail_nil hread
        rw [toNat_val_ofNat (by omega)]
        rw [if_neg (by omega), if_pos (by omega), ofNat_eq_of_toNat (b := b) (by omega),
          ofNat_eq_of_toNat (b := b₁) (by omega)]
        rfl
      · obtain ⟨b₁, bs₁, rfl, h₁, h₁', hread⟩ := of_readTail_cons hread
        obtain ⟨b₂, bs₂, rfl, h₂, h₂', hread⟩ := of_readTail_cons hread
        obtain ⟨hn, rfl⟩ := of_readTail_nil hread
        rw [toNat_val_ofNat (by omega)]
        rw [if_neg (by omega), if_neg (by omega), if_pos (by omega),
          ofNat_eq_of_toNat (b := b) (by omega), ofNat_eq_of_toNat (b := b₁) (by omega),
          ofNat_eq_of_toNat (b := b₂) (by omega)]
        rfl
      · obtain ⟨b₁, bs₁, rfl, h₁, h₁', hread⟩ := of_readTail_cons hread
        obtain ⟨b₂, bs₂, rfl, h₂, h₂', hread⟩ := of_readTail_cons hread
        obtain ⟨b₃, bs₃, rfl, h₃, h₃', hread⟩ := of_readTail_cons hread
        obtain ⟨hn, rfl⟩ := of_readTail_nil hread
        rw [toNat_val_ofNat (by omega)]
        rw [if_neg (by omega), if_neg (by omega), if_neg (by omega),
          ofNat_eq_of_toNat (b := b) (by omega), ofNat_eq_of_toNat (b := b₁) (by omega),
          ofNat_eq_of_toNat (b := b₂) (by omega), ofNat_eq_of_toNat (b := b₃) (by omega)]
        rfl

/-! ### Whole texts -/

lemma readFrom_cons {b : UInt8} {bs rest : List UInt8} {c : Char} {start : Nat}
    (h : readChar b bs = .ok (c, rest)) :
    readFrom start (b :: bs) =
      (readFrom (start + 1 + (bs.length - rest.length)) rest).map (c :: ·) := by
  rw [readFrom]
  split
  · rename_i heq
    rw [h] at heq
    cases heq
  · rename_i heq
    rw [h] at heq
    obtain ⟨rfl, rfl⟩ := Prod.mk.inj (Except.ok.inj heq)
    rfl

lemma readFrom_utf8 (cs : List Char) :
    ∀ start, readFrom start (cs.flatMap String.utf8EncodeChar) = .ok cs := by
  induction cs with
  | nil =>
    intro start
    rw [List.flatMap_nil, readFrom]
  | cons c cs ih =>
    intro start
    obtain ⟨b, bs, hc, hread⟩ := readChar_utf8EncodeChar c (cs.flatMap String.utf8EncodeChar)
    rw [List.flatMap_cons, hc, List.cons_append, readFrom_cons hread, ih]
    rfl

lemma of_readFrom (start : Nat) (bs : List UInt8) :
    ∀ cs, readFrom start bs = .ok cs → cs.flatMap String.utf8EncodeChar = bs := by
  fun_induction readFrom start bs with
  | case1 start =>
    intro cs h
    cases h
    rfl
  | case2 start b bs broken hread =>
    intro cs h
    cases h
  | case3 start b bs c rest hread hlen ih =>
    intro cs h
    cases hrest : readFrom (start + 1 + (bs.length - rest.length)) rest with
    | error e => rw [hrest] at h; cases h
    | ok cs' =>
      rw [hrest] at h
      cases h
      rw [List.flatMap_cons, ih cs' hrest, of_readChar hread]

end Utf8

/-- The octets of a text are read as that text. -/
lemma ofUtf8_utf8 (s : String) : ofUtf8 (utf8 s) = .ok s := by
  rw [ofUtf8, utf8, Utf8.readFrom_utf8]
  exact congrArg Except.ok String.ofList_toList

/-- Octets that are read as a text are those of the text. -/
lemma utf8_of_ofUtf8 {bs : List UInt8} {s : String} (h : ofUtf8 bs = .ok s) : utf8 s = bs := by
  rw [ofUtf8] at h
  cases hread : Utf8.readFrom 0 bs with
  | error e => rw [hread] at h; cases h
  | ok cs =>
    rw [hread] at h
    cases h
    rw [utf8, String.toList_ofList]
    exact Utf8.of_readFrom 0 bs cs hread

end Interop.Text
