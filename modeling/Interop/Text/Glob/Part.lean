/-
# The parts of a pattern

What the marks of a pattern make up: single characters, wildcards, groups of alternatives, and
the three forms of two stars between slashes.

Main definition: `readParts` puts marks together, and finds the faults in groups.
-/
import Interop.Text.Glob.Mark

namespace Interop.Text

namespace Glob

/-- A part of a pattern. -/
inductive Part
  | literal (c : Char)
  | anyChar
  /-- Any characters, slashes included. -/
  | anyText
  | oneOf (s : CharSet)
  /-- One of some alternatives.  Without any it stands for the empty text. -/
  | group (alternatives : List (List Part))
  /-- Any number of pieces at the start, each with the slash after it. -/
  | folders
  /-- A slash and any characters after it. -/
  | inside
  /-- A slash, or two with any characters between them. -/
  | between

/-- Tells whether a part cannot stand for any character. -/
def Part.isBlank : Part → Bool
  | group [] => true
  | _ => false

/-- A group that is being read: the parts before it and its complete alternatives, each latest
first. -/
structure OpenGroup where
  before : List Part
  complete : List (List Part)

namespace OpenGroup

/-- The group as a part, with its last alternative.  Alternatives that stand for the empty text
are left out. -/
def close (g : OpenGroup) (last : List Part) : Part :=
  .group <| (last.reverse :: g.complete).reverse.filter fun parts => !parts.all (·.isBlank)

end OpenGroup

/-- Tells whether two stars after a mark can start a piece. -/
def startsPiece (before : Option Mark) (groups : List OpenGroup) : Bool :=
  match before with
  | some (.char c) | some (.escaped c) =>
    c = '/' || (!groups.isEmpty && (c = ',' || c = '\x7b'))
  | _ => false

/-- The slash before two stars that make up a piece gives way to the part that takes in the
slash; parts that already did so stay. -/
def joinPieces (current : List Part) (joined : Part) : List Part :=
  match current with
  | .folders :: rest => .folders :: rest
  | .inside :: rest => .inside :: rest
  | _ :: rest => joined :: rest
  | [] => [joined]

/-- Tells whether a piece ends here: at the end of the pattern or of an alternative. -/
def endsPiece (groups : List OpenGroup) : List Mark → Bool
  | [] => true
  | .comma :: _ | .closeGroup :: _ => !groups.isEmpty
  | _ => false

/-- Reads parts: after the mark `before`, with the parts `current` of the innermost group or of
the whole, latest first. -/
def readParts : Option Mark → List Part → List OpenGroup → List Mark →
    Except GlobFault (List Part)
  | _, current, [], [] => .ok current.reverse
  | _, _, _ :: _, [] => .error .unclosedGroup
  | _, [], groups, [.star, .star] => readParts (some .star) [.folders] groups []
  | _, [], groups, .star :: .star :: .char '/' :: ms =>
    readParts (some (.char '/')) [.folders] groups ms
  | before, current, groups, .star :: .star :: ms =>
    if current.isEmpty || !startsPiece before groups then
      readParts (some .star) (.anyText :: .anyText :: current) groups ms
    else if endsPiece groups ms then
      readParts (some .star) (joinPieces current .inside) groups ms
    else
      match ms with
      | .char '/' :: ms => readParts (some (.char '/')) (joinPieces current .between) groups ms
      | ms => readParts (some .star) (.anyText :: .anyText :: current) groups ms
  | _, current, groups, .star :: ms => readParts (some .star) (.anyText :: current) groups ms
  | _, current, groups, .question :: ms => readParts (some .question) (.anyChar :: current) groups ms
  | _, current, groups, .set s :: ms => readParts (some (.set s)) (.oneOf s :: current) groups ms
  | _, current, groups, .char c :: ms => readParts (some (.char c)) (.literal c :: current) groups ms
  | _, current, groups, .escaped c :: ms =>
    readParts (some (.escaped c)) (.literal c :: current) groups ms
  | _, current, groups, .openGroup :: ms => readParts (some .openGroup) [] (⟨current, []⟩ :: groups) ms
  | _, current, g :: groups, .closeGroup :: ms =>
    readParts (some .closeGroup) (g.close current :: g.before) groups ms
  | _, _, [], .closeGroup :: _ => .error .unopenedGroup
  | _, current, g :: groups, .comma :: ms =>
    readParts (some .comma) [] ({ g with complete := current.reverse :: g.complete } :: groups) ms
  | _, current, [], .comma :: ms => readParts (some .comma) (.literal ',' :: current) [] ms

end Glob

end Interop.Text
