/-
# Texts as octets

The UTF-8 form of texts.  Reading stops at the first octet that no text could have there, and
says how many octets before it were read and how long the broken character is.
-/

namespace Interop.Text

/-- The octets of a text. -/
def utf8 (s : String) : List UInt8 := s.toList.flatMap String.utf8EncodeChar

/-- Where a list of octets stops being the form of a text. -/
structure Utf8Fault where
  /-- The number of octets that form characters before the fault. -/
  valid : Nat
  /-- The number of octets of the broken character; none if the octets end inside one. -/
  broken : Option Nat
deriving DecidableEq

/-- The wording of a fault. -/
def Utf8Fault.message (f : Utf8Fault) : String :=
  match f.broken with
  | some n => s!"invalid utf-8 sequence of {n} bytes from index {f.valid}"
  | none => s!"incomplete utf-8 byte sequence from index {f.valid}"

namespace Utf8

/-- The octets that may continue a character. -/
def tail : Nat × Nat := (0x80, 0xbf)

/-- What the first octet of a character says: the bits it gives to the code point, and the
ranges of the octets that must follow. -/
def head? (b : Nat) : Option (Nat × List (Nat × Nat)) :=
  if b < 0x80 then some (b, [])
  else if b < 0xc2 then none
  else if b < 0xe0 then some (b - 0xc0, [tail])
  else if b = 0xe0 then some (b - 0xe0, [(0xa0, 0xbf), tail])
  else if b = 0xed then some (b - 0xe0, [(0x80, 0x9f), tail])
  else if b < 0xf0 then some (b - 0xe0, [tail, tail])
  else if b = 0xf0 then some (b - 0xf0, [(0x90, 0xbf), tail, tail])
  else if b < 0xf4 then some (b - 0xf0, [tail, tail, tail])
  else if b = 0xf4 then some (b - 0xf0, [(0x80, 0x8f), tail, tail])
  else none

/-- Reads the octets that must follow: the code point and the octets behind the character, or
the length of the broken character.  `code` are the bits and `taken` the octets so far. -/
def readTail (code taken : Nat) :
    List (Nat × Nat) → List UInt8 → Except (Option Nat) (Nat × List UInt8)
  | [], bs => .ok (code, bs)
  | _ :: _, [] => .error none
  | (lo, hi) :: ranges, b :: bs =>
    if lo ≤ b.toNat ∧ b.toNat ≤ hi then
      readTail (code * 64 + (b.toNat - 0x80)) (taken + 1) ranges bs
    else .error (some taken)

theorem length_of_readTail {code taken : Nat} {ranges : List (Nat × Nat)} {bs rest : List UInt8}
    {result : Nat} (h : readTail code taken ranges bs = .ok (result, rest)) :
    rest.length ≤ bs.length := by
  fun_induction readTail code taken ranges bs with
  | case1 => cases h; exact Nat.le_refl _
  | case2 => cases h
  | case3 _ _ _ _ _ _ _ _ ih => exact Nat.le_succ_of_le (ih h)
  | case4 => cases h

/-- Reads one character that starts with the octet `b`. -/
def readChar (b : UInt8) (bs : List UInt8) : Except (Option Nat) (Char × List UInt8) :=
  match head? b.toNat with
  | none => .error (some 1)
  | some (code, ranges) => (readTail code 1 ranges bs).map fun (n, rest) => (Char.ofNat n, rest)

theorem length_of_readChar {b : UInt8} {bs rest : List UInt8} {c : Char}
    (h : readChar b bs = .ok (c, rest)) : rest.length ≤ bs.length := by
  unfold readChar at h
  split at h
  · cases h
  · rename_i code ranges _
    cases hr : readTail code 1 ranges bs with
    | error e => simp [hr, Except.map] at h
    | ok r =>
      simp only [hr, Except.map, Except.ok.injEq, Prod.mk.injEq] at h
      obtain ⟨_, rfl⟩ := h
      exact length_of_readTail hr

/-- Reads octets, the first of which stands at `start`. -/
def readFrom (start : Nat) (bs : List UInt8) : Except Utf8Fault (List Char) :=
  match bs with
  | [] => .ok []
  | b :: bs =>
    match h : readChar b bs with
    | .error broken => .error ⟨start, broken⟩
    | .ok (c, rest) =>
      have := length_of_readChar h
      (readFrom (start + 1 + (bs.length - rest.length)) rest).map (c :: ·)
termination_by bs.length

end Utf8

/-- The text that a list of octets is the form of. -/
def ofUtf8 (bs : List UInt8) : Except Utf8Fault String :=
  (Utf8.readFrom 0 bs).map String.ofList

end Interop.Text
