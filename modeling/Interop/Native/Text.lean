/-
# Text in native code

Two forms of text: constant text, which ends at its first NUL and so holds none, and growable
buffers, which hold any octets and end with a NUL that does not count.  A buffer has a public
length that native code can overwrite; only the storage decides what it holds.
-/
import Interop.Text.Utf8

namespace Interop.Native

/-- Constant text: octets other than NUL. -/
structure ConstText where
  octets : List UInt8
  nul_not_mem : (0 : UInt8) ∉ octets
deriving DecidableEq

namespace ConstText

/-- The octets before the first NUL. -/
def ofOctets (octets : List UInt8) : ConstText :=
  ⟨octets.takeWhile (· != 0), fun h => by
    simpa using List.all_eq_true.mp List.all_takeWhile 0 h⟩

/-- The octets, if none of them is NUL. -/
def ofOctets? (octets : List UInt8) : Option ConstText :=
  if h : (0 : UInt8) ∈ octets then none else some ⟨octets, h⟩

/-- The form of a text, up to its first NUL. -/
def ofText (s : String) : ConstText := ofOctets (Text.utf8 s)

/-- The form of a text without NUL. -/
def ofText? (s : String) : Option ConstText := ofOctets? (Text.utf8 s)

end ConstText

/-- A growable text buffer. -/
structure TextBuffer where
  /-- The octets that native code can read, with the NUL at the end. -/
  storage : List UInt8
  /-- The length that native code reads, and may overwrite. -/
  publicLength : Nat
deriving DecidableEq

namespace TextBuffer

/-- The buffer that holds some octets. -/
def ofOctets (octets : List UInt8) : TextBuffer := ⟨octets ++ [0], octets.length⟩

/-- The buffer that holds a text. -/
def ofText (s : String) : TextBuffer := ofOctets (Text.utf8 s)

/-- The empty buffer. -/
def empty : TextBuffer := ofOctets []

/-- The octets that a buffer holds. -/
def octets (b : TextBuffer) : List UInt8 := b.storage.dropLast

/-- The number of octets that a buffer holds. -/
def length (b : TextBuffer) : Nat := b.storage.length - 1

/-- Replaces the octets. -/
def assign (_ : TextBuffer) (octets : List UInt8) : TextBuffer := ofOctets octets

/-- Adds octets behind those held. -/
def append (b : TextBuffer) (octets : List UInt8) : TextBuffer := ofOctets (b.octets ++ octets)

/-- Overwrites the public length. -/
def writeLength (b : TextBuffer) (n : Nat) : TextBuffer := { b with publicLength := n }

/-- A buffer of its own with the same octets. -/
def copy (b : TextBuffer) : TextBuffer := ofOctets b.octets

/-- What native code reads: the octets before the first NUL. -/
def visible (b : TextBuffer) : List UInt8 := b.storage.takeWhile (· != 0)

/-- Buffers are equal when they hold the same octets. -/
def eqv (a b : TextBuffer) : Bool := a.octets = b.octets

@[simp]
theorem octets_ofOctets (octets : List UInt8) : (ofOctets octets).octets = octets := by
  simp [ofOctets, TextBuffer.octets]

@[simp]
theorem octets_assign (b : TextBuffer) (octets : List UInt8) : (b.assign octets).octets = octets :=
  octets_ofOctets octets

@[simp]
theorem octets_append (b : TextBuffer) (octets : List UInt8) :
    (b.append octets).octets = b.octets ++ octets :=
  octets_ofOctets _

@[simp]
theorem octets_writeLength (b : TextBuffer) (n : Nat) : (b.writeLength n).octets = b.octets := rfl

end TextBuffer

end Interop.Native
