/-
# Patterns as regular expressions

The regular expression that says the same as a pattern, over the bytes of a text, and how deep
it is nested.

Main definitions:
* `expression` is the text of the regular expression;
* `nesting` counts its levels.
-/
import Interop.Text.Glob

namespace Interop.Text

namespace Glob

/-! ### The text of an expression -/

/-- The characters with a meaning of their own in regular expressions. -/
def operators : List Char := "\\.+*?()|[]\x7b\x7d^$#&-~".toList

/-- A byte by its number. -/
def byteText (b : UInt8) : List Char :=
  ['\\', 'x', Nat.digitChar (b.toNat / 16), Nat.digitChar (b.toNat % 16)]

/-- A character that stands for itself: behind a backslash if it is an operator, and by its
bytes if it has several. -/
def charText (c : Char) : List Char :=
  if 1 < c.utf8Size then (String.singleton c).toUTF8.toList.flatMap byteText
  else if operators.contains c then ['\\', c]
  else [c]

/-- A range of characters. -/
def rangeText (range : Char × Char) : List Char :=
  let (first, last) := range
  if first = last then charText first else charText first ++ '-' :: charText last

/-- One of a set of characters. -/
def setText (s : CharSet) : List Char :=
  '[' :: (if s.negated then ['^'] else []) ++ s.ranges.flatMap rangeText ++ [']']

mutual

/-- The expression for a part. -/
def Part.text : Part → List Char
  | .literal c => charText c
  | .anyChar => ['.']
  | .anyText => ".*".toList
  | .oneOf s => setText s
  | .group alternatives =>
    if alternatives.isEmpty then []
    else "(?:".toList ++ ['|'].intercalate (alternativeTexts alternatives) ++ [')']
  | .folders => "(?:/?|.*/)".toList
  | .inside => "/.*".toList
  | .between => "(?:/|/.*/)".toList

/-- The expression for some parts in a row. -/
def partsText : List Part → List Char
  | [] => []
  | p :: ps => p.text ++ partsText ps

/-- The expressions for some alternatives. -/
def alternativeTexts : List (List Part) → List (List Char)
  | [] => []
  | alternative :: more => partsText alternative :: alternativeTexts more

end

/-- The regular expression for a pattern: of bytes, and for whole texts. -/
def expression (g : Glob) : String :=
  String.ofList ("(?-u)^".toList ++ partsText g.parts ++ ['$'])

/-! ### The levels of an expression -/

/-- The number of items in the expression for a range. -/
def rangeSize (range : Char × Char) : Nat :=
  let (first, last) := range
  if first = last then first.utf8Size else first.utf8Size + last.utf8Size - 1

/-- The number of expressions in a row that a part makes up. -/
def Part.size : Part → Nat
  | .literal c => c.utf8Size
  | .group [] => 0
  | .inside => 2
  | _ => 1

/-- The number of items that some things make up together. -/
def total {α : Type} (size : α → Nat) (items : List α) : Nat :=
  items.foldr (fun item n => size item + n) 0

/-- The level that items in a row add when there are several of them. -/
def levelOf (size : Nat) : Nat := if 1 < size then 1 else 0

/-- The level that some parts in a row add. -/
def rowLevel (parts : List Part) : Nat := levelOf (total (·.size) parts)

mutual

/-- The levels of the expression for a part: one for each repetition, set, group, choice between
alternatives and row of several items on the way to its innermost character. -/
def Part.nesting : Part → Nat
  | .literal _ | .anyChar => 0
  | .anyText | .inside => 1
  | .oneOf s => 1 + levelOf (total rangeSize s.ranges)
  | .group alternatives =>
    if alternatives.isEmpty then 0
    else 1 + levelOf alternatives.length + nestingOfSome alternatives
  | .folders | .between => 4

/-- The most levels of some parts. -/
def nestingOfAll : List Part → Nat
  | [] => 0
  | p :: ps => max p.nesting (nestingOfAll ps)

/-- The most levels of some alternatives. -/
def nestingOfSome : List (List Part) → Nat
  | [] => 0
  | alternative :: more =>
    max (rowLevel alternative + nestingOfAll alternative) (nestingOfSome more)

end

/-- The levels of the expression for a pattern, in which the parts stand between the marks for
the ends of the text. -/
def nesting (g : Glob) : Nat := 1 + nestingOfAll g.parts

end Glob

end Interop.Text
