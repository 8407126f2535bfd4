/-
# From characters to tokens

A source text is cut, piece by piece and by longest match, into white space, comments and
tokens.  Each cut records the text it takes and the text it leaves, so that no character is
lost; the tokens with their spans are read off the pieces.

Main definitions:
* `Piece.cut` takes the first piece off a text;
* `Lexeme.ofText` is the list of the tokens of a text, ended by the end of the file.
-/
import Interop.Power
import Interop.Source.Error
import Interop.Text.Blank

namespace Interop.Source

/-- Letters, digits and the underscore of ASCII: what a word goes on with. -/
def isWordChar (c : Char) : Bool := c.isAlphanum || c == '_'

/-- Letters and the underscore of ASCII: what a word starts with. -/
def isWordStart (c : Char) : Bool := c.isAlpha || c == '_'

/-- The digits of hexadecimal numerals, in either case. -/
def isHexDigit (c : Char) : Bool :=
  c.isDigit || ('a' ≤ c && c ≤ 'f') || ('A' ≤ c && c ≤ 'F')

/-- The value of a hexadecimal digit, and 0 for any other character. -/
def hexDigitValue (c : Char) : Nat :=
  if c.isDigit then c.toNat - '0'.toNat
  else if 'a' ≤ c ∧ c ≤ 'f' then c.toNat - 'a'.toNat + 10
  else if 'A' ≤ c ∧ c ≤ 'F' then c.toNat - 'A'.toNat + 10
  else 0

/-- The number that a list of digits denotes in a base, most significant digit first. -/
def numeral (base : Nat) (digits : List Char) : Nat :=
  digits.foldl (fun n c => n * base + hexDigitValue c) 0

/-- The letters that may end a number.  They carry no meaning. -/
def isSuffixLetter (c : Char) : Bool := c == 'u' || c == 'U' || c == 'l' || c == 'L'

/-- The symbol that a single character spells, `<` apart, which may be the start of `<<`. -/
def Symbol.ofChar? : Char → Option Symbol
  | '(' => some .leftParen | ')' => some .rightParen
  | '\x7b' => some .leftBrace | '\x7d' => some .rightBrace
  | '[' => some .leftBracket | ']' => some .rightBracket
  | ';' => some .semicolon | ',' => some .comma | ':' => some .colon | '.' => some .dot
  | '=' => some .assign | '-' => some .minus | '|' => some .pipe
  | '?' => some .question | '>' => some .greater
  | _ => none

/-- What a piece of a source text is. -/
inductive Piece
  /-- White space or a comment. -/
  | trivia
  | token (t : Token)
deriving DecidableEq

/-- A way to cut a text in two, the first part not empty. -/
structure Cut (s : List Char) where
  text : List Char
  rest : List Char
  text_append_rest : text ++ rest = s
  text_ne_nil : text ≠ []

namespace Cut

/-- Each cut leaves less than there was. -/
theorem length_rest_lt {s : List Char} (c : Cut s) : c.rest.length < s.length := by
  have h := congrArg List.length c.text_append_rest
  have := List.length_pos_iff.mpr c.text_ne_nil
  simp at h
  omega

/-- Takes the first character and those after it while `p` holds of them. -/
def span (c : Char) (cs : List Char) (p : Char → Bool) : Cut (c :: cs) where
  text := c :: cs.takeWhile p
  rest := cs.dropWhile p
  text_append_rest := by simp [List.takeWhile_append_dropWhile]
  text_ne_nil := by simp

/-- Takes the first `n + 1` characters. -/
def first (c : Char) (cs : List Char) (n : Nat) : Cut (c :: cs) where
  text := c :: cs.take n
  rest := cs.drop n
  text_append_rest := by simp
  text_ne_nil := by simp

end Cut

/-- The number of characters up to and including the first `*/`, if there is one. -/
def commentLength? : List Char → Option Nat
  | '*' :: '/' :: _ => some 2
  | _ :: cs => (commentLength? cs).map (· + 1)
  | [] => none

/-- A fault, with the number of characters that show it. -/
abbrev LexResult (α : Type) := Except (SyntaxFault × Nat) α

/-- The characters of a numeral before its suffix. -/
structure Numeral where
  base : Nat
  /-- The characters after the first one. -/
  body : List Char
  /-- The digits, with the underscores among them. -/
  digits : List Char

/-- The decimal numeral that starts with the digit `c`. -/
def Numeral.decimal (c : Char) (cs : List Char) : Numeral :=
  let body := cs.takeWhile fun d => d.isDigit || d == '_'
  ⟨10, body, c :: body⟩

/-- The hexadecimal numeral that starts with a zero and the mark `x`. -/
def Numeral.hexadecimal (x : Char) (cs : List Char) : Numeral :=
  let digits := cs.takeWhile fun d => isHexDigit d || d == '_'
  ⟨16, x :: digits, digits⟩

/-- The numeral that starts with the digit `c`. -/
def Numeral.read (c : Char) (cs : List Char) : Numeral :=
  match c, cs with
  | '0', 'x' :: rest => hexadecimal 'x' rest
  | '0', 'X' :: rest => hexadecimal 'X' rest
  | _, _ => decimal c cs

/-- The number that a numeral denotes; underscores do not count.  There is none without
digits. -/
def Numeral.value? (n : Numeral) : Option Nat :=
  match n.digits.filter (· != '_') with
  | [] => none
  | digits => some (numeral n.base digits)

/-- A number: decimal or hexadecimal digits with underscores among them, then suffix letters.
No letter, digit or underscore may follow. -/
def cutNumber (c : Char) (cs : List Char) : LexResult (Token × Cut (c :: cs)) :=
  let n := Numeral.read c cs
  let suffix := (cs.drop n.body.length).takeWhile isSuffixLetter
  let cut := Cut.first c cs (n.body.length + suffix.length)
  match n.value? with
  | none => .error (.invalidNumber, cut.text.length)
  | some v =>
    if cut.rest.head?.any isWordChar then .error (.invalidNumber, cut.text.length)
    else if v < twoPow 64 then .ok (.integer (.ofNat v), cut)
    else .error (.integerTooLarge, cut.text.length)

/-- A keyword or an identifier: the longest run of letters, digits and underscores. -/
def cutWord (c : Char) (cs : List Char) : Token × Cut (c :: cs) :=
  let cut := Cut.span c cs isWordChar
  let word := String.ofList cut.text
  match Keyword.ofText? word with
  | some k => (.keyword k, cut)
  | none => (.ident word, cut)

/-- Takes the first token off a text that starts with neither white space nor a comment. -/
def cutToken (c : Char) (cs : List Char) : LexResult (Token × Cut (c :: cs)) :=
  match Symbol.ofChar? c with
  | some s => .ok (.symbol s, .first c cs 0)
  | none =>
    if c == '<' then
      if cs.head? == some '<' then .ok (.symbol .shiftLeft, .first c cs 1)
      else .ok (.symbol .less, .first c cs 0)
    else if c.isDigit then cutNumber c cs
    else if isWordStart c then .ok (cutWord c cs)
    else .error (.unexpectedCharacter c, 1)

/-- Takes the first piece off a text: a white space character, a comment, or a token. -/
def Piece.cut (c : Char) (cs : List Char) : LexResult (Piece × Cut (c :: cs)) :=
  if Text.isBlank c then .ok (.trivia, .first c cs 0)
  else if c == '/' && cs.head? == some '/' then
    .ok (.trivia, .span c cs (· != '\n'))
  else if c == '/' && cs.head? == some '*' then
    match commentLength? cs.tail with
    | some n => .ok (.trivia, .first c cs (n + 1))
    | none => .error (.unterminatedComment, cs.length + 1)
  else (cutToken c cs).map fun (t, cut) => (.token t, cut)

/-- The tokens of a text whose first character stands at `start`. -/
def Lexeme.ofCharsAt (start : Nat) (s : List Char) : Except SyntaxError (List Lexeme) :=
  match s with
  | [] => .ok [⟨.endOfFile, ⟨start, start⟩⟩]
  | c :: cs =>
    match Piece.cut c cs with
    | .error (fault, n) => .error ⟨fault, ⟨start, start + n⟩⟩
    | .ok (piece, cut) =>
      have := cut.length_rest_lt
      let stop := start + cut.text.length
      match piece with
      | .trivia => ofCharsAt stop cut.rest
      | .token t => (ofCharsAt stop cut.rest).map (⟨t, ⟨start, stop⟩⟩ :: ·)
termination_by s.length
decreasing_by all_goals exact this

/-- The tokens of a source text, the last of them the end of the file. -/
def Lexeme.ofText (source : String) : Except SyntaxError (List Lexeme) :=
  ofCharsAt 0 source.toList

end Interop.Source
