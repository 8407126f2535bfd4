/-
# The layout of reports

A report as it is shown in a terminal: the message, the place, the line of the source text, and
below it the label, on an arrow from the middle of the marked piece.  The piece lies on one line.
-/
import Interop.Diagnostic
import Interop.Text.Blank
import Interop.Text.Line

namespace Interop

/-- The part of a span that lies within a text of some length.  A span that stops before its
start is empty. -/
def Span.clamp (s : Span) (length : Nat) : Span :=
  let start := min s.start length
  ⟨start, max start (min s.stop length)⟩

namespace Diagnostic

/-- A character several times. -/
def repeated (n : Nat) (c : Char) : String := String.ofList (List.replicate n c)

/-- A text without the blanks at its end. -/
def trimEnd (cs : List Char) : String :=
  String.ofList (cs.reverse.dropWhile Text.isBlank).reverse

/-- The line that marks a piece of some width, with the foot of the arrow in its middle. -/
def underline (width : Nat) : String :=
  if width = 0 then "│ "
  else
    let middle := width / 2
    repeated middle '─' ++ "┬" ++ repeated (width - middle - 1) '─' ++ "  "

/-- The arrow from the middle of a piece of some width to its label. -/
def arrow (width : Nat) : String :=
  let middle := width / 2
  repeated middle ' ' ++ "╰" ++ repeated (if width = 0 then 1 else width - middle + 1) '─'

/-- The lines of a report about a source text of a file. -/
def lines (d : Diagnostic) (file source : String) : List String :=
  let span := d.span.clamp source.length
  let place := Text.locate source span.start
  let number := toString place.line
  let margin := repeated number.length ' '
  let indent := repeated place.column ' '
  let width := span.stop - span.start
  let labelled : List String :=
    match d.label with
    | none => []
    | some label =>
      [s!" {margin} │ {indent}{underline width}",
       s!" {margin} │ {indent}{arrow width} {label}"]
  let helped : List String :=
    match d.help with
    | none => []
    | some help => [s!" {margin} │ ", s!" {margin} │ Help: {help}"]
  [s!"{d.severity.heading}: {d.message}",
   s!"  {margin}╭─[{file}:{place.line}:{place.column + 1}]",
   s!"  {margin}│",
   s!" {number} │ {trimEnd place.text}"] ++
    labelled ++ helped ++ [repeated (number.length + 2) '─' ++ "╯"]

/-- The text of a report about a source text of a file. -/
def render (d : Diagnostic) (file source : String) : String :=
  String.join ((d.lines file source).map (· ++ "\n"))

end Diagnostic

end Interop
