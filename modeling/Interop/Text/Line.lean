/-
# Lines of a text

A text is cut into lines after each line break; a break at the end of the text starts no further
line.  `splitLines_flatten` says that the lines make up the text.
-/

namespace Interop.Text

/-- The characters that end a line. -/
def endsLine (c : Char) : Bool :=
  ['\n', '\x0b', '\x0c', '\r', '\x85', '\u2028', '\u2029'].contains c

/-- The lines of a text, each with its break.  A carriage return and a line feed are one
break. -/
def splitLines : List Char → List (List Char)
  | [] => []
  | '\r' :: '\n' :: cs => ['\r', '\n'] :: splitLines cs
  | c :: cs =>
    if endsLine c then [c] :: splitLines cs
    else
      match splitLines cs with
      | [] => [[c]]
      | line :: lines => (c :: line) :: lines

theorem splitLines_flatten (cs : List Char) : (splitLines cs).flatten = cs := by
  fun_induction splitLines cs <;> simp_all

/-- A place in a text. -/
structure Location where
  /-- The number of the line, from 1 on. -/
  line : Nat
  /-- The number of characters before the place on its line. -/
  column : Nat
  /-- The characters of the line, its break included. -/
  text : List Char
deriving DecidableEq

/-- The place of an offset in some lines, the first of which has the given number.  An offset
after the last line is a place on it. -/
def locateIn (number : Nat) : List (List Char) → Nat → Location
  | [], offset => ⟨number, offset, []⟩
  | [line], offset => ⟨number, offset, line⟩
  | line :: lines, offset =>
    if offset < line.length then ⟨number, offset, line⟩
    else locateIn (number + 1) lines (offset - line.length)

/-- The place of an offset in a text. -/
def locate (text : String) (offset : Nat) : Location :=
  locateIn 1 (splitLines text.toList) offset

end Interop.Text
