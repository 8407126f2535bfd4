/-
# The marks of a pattern

A pattern is a text of marks: characters that stand for themselves, wildcards, sets of
characters, and the braces and commas of groups.

Main definition: `readMarks` cuts a pattern into marks, and finds the faults in sets and after
backslashes.
-/

namespace Interop.Text

/-- Why a text is no pattern. -/
inductive GlobFault
  | unclosedSet
  | invertedRange (first last : Char)
  | danglingEscape
  | unopenedGroup
  | unclosedGroup
deriving DecidableEq

/-- The wording of a fault. -/
def GlobFault.message : GlobFault → String
  | unclosedSet => "unclosed character class; missing ']'"
  | invertedRange first last => s!"invalid range; '{first}' > '{last}'"
  | danglingEscape => "dangling '\\'"
  | unopenedGroup => "unopened alternate group; missing '\x7b' (maybe escape '\x7d' with '[\x7d]'?)"
  | unclosedGroup => "unclosed alternate group; missing '\x7d' (maybe escape '\x7b' with '[\x7b]'?)"

/-- A set of characters, given by ranges with both ends. -/
structure CharSet where
  negated : Bool
  ranges : List (Char × Char)
deriving DecidableEq

namespace CharSet

/-- Tells whether a character is in the set. -/
def contains (s : CharSet) (c : Char) : Bool :=
  s.negated != s.ranges.any fun (first, last) => first ≤ c && c ≤ last

end CharSet

namespace Glob

/-- A set as far as it has been read: its ranges, latest first, and whether a dash waits for
the end of the latest one. -/
structure OpenSet where
  negated : Bool
  ranges : List (Char × Char)
  dash : Bool
deriving DecidableEq

namespace OpenSet

/-- A set of which nothing has been read. -/
def start (negated : Bool) : OpenSet := ⟨negated, [], false⟩

/-- Reads a character of a set.  After a dash it is the new end of the latest range. -/
def add (s : OpenSet) (c : Char) : Except GlobFault OpenSet :=
  match s.dash, s.ranges with
  | true, (first, _) :: rest =>
    if c < first then .error (.invertedRange first c)
    else .ok { s with ranges := (first, c) :: rest, dash := false }
  | _, ranges =>
    if c = '-' ∧ ranges ≠ [] then .ok { s with dash := true }
    else .ok { s with ranges := (c, c) :: ranges, dash := false }

/-- The set, when it has been closed.  A dash at the end stands for itself. -/
def close (s : OpenSet) : CharSet :=
  ⟨s.negated, (if s.dash then ('-', '-') :: s.ranges else s.ranges).reverse⟩

end OpenSet

/-- What a pattern is made of. -/
inductive Mark
  | char (c : Char)
  /-- A character after a backslash. -/
  | escaped (c : Char)
  | question
  | star
  | set (s : CharSet)
  | openGroup
  | closeGroup
  | comma
deriving DecidableEq

/-- Where a reader of marks stands. -/
inductive Place
  | outside
  /-- Right after a backslash. -/
  | escape
  | inSet (s : OpenSet)

/-- The mark that a character stands for outside sets. -/
def Mark.ofChar : Char → Mark
  | '?' => question
  | '*' => star
  | '\x7b' => openGroup
  | '\x7d' => closeGroup
  | ',' => comma
  | c => char c

/-- Reads marks.  A set has at least one character, so that a bracket right at its start does
not close it. -/
def readMarks : Place → List Char → Except GlobFault (List Mark)
  | .outside, [] => .ok []
  | .outside, '\\' :: cs => readMarks .escape cs
  | .outside, '[' :: '!' :: cs => readMarks (.inSet (.start true)) cs
  | .outside, '[' :: '^' :: cs => readMarks (.inSet (.start true)) cs
  | .outside, '[' :: cs => readMarks (.inSet (.start false)) cs
  | .outside, c :: cs => (readMarks .outside cs).map (Mark.ofChar c :: ·)
  | .escape, [] => .error .danglingEscape
  | .escape, c :: cs => (readMarks .outside cs).map (.escaped c :: ·)
  | .inSet _, [] => .error .unclosedSet
  | .inSet s, c :: cs =>
    if c = ']' ∧ s.ranges ≠ [] then (readMarks .outside cs).map (.set s.close :: ·)
    else
      match s.add c with
      | .ok s => readMarks (.inSet s) cs
      | .error fault => .error fault

end Glob

end Interop.Text
