/-
# JSON text

The layout of JSON values over several lines, with two blanks for each level of nesting.
-/

namespace Interop.Text

/-- A JSON value without numbers. -/
inductive Json
  | bool (b : Bool)
  | string (s : String)
  | array (items : List Json)
  | object (fields : List (String × Json))

namespace Json

/-- The hexadecimal digits. -/
def hexDigit (n : Nat) : Char := "0123456789abcdef".toList.getD n '0'

/-- A character inside quotes. -/
def escape (c : Char) : List Char :=
  match c with
  | '"' => ['\\', '"']
  | '\\' => ['\\', '\\']
  | '\n' => ['\\', 'n']
  | '\r' => ['\\', 'r']
  | '\t' => ['\\', 't']
  | '\x08' => ['\\', 'b']
  | '\x0c' => ['\\', 'f']
  | c =>
    if c.toNat < 32 then ['\\', 'u', '0', '0', hexDigit (c.toNat / 16), hexDigit (c.toNat % 16)]
    else [c]

/-- A text in quotes. -/
def quoted (s : String) : List Char := '"' :: s.toList.flatMap escape ++ ['"']

/-- A new line at some depth. -/
def newline (depth : Nat) : List Char := '\n' :: List.replicate (2 * depth) ' '

/-- Some texts between brackets, each on a line of its own.  Without texts the brackets touch. -/
def bracketed (first last : Char) (depth : Nat) (items : List (List Char)) : List Char :=
  if items.isEmpty then [first, last]
  else
    first :: [','].intercalate (items.map (newline (depth + 1) ++ ·)) ++ newline depth ++ [last]

mutual

/-- A value at some depth. -/
def layout (depth : Nat) : Json → List Char
  | bool b => if b then "true".toList else "false".toList
  | string s => quoted s
  | array items => bracketed '[' ']' depth (layoutItems (depth + 1) items)
  | object fields => bracketed '\x7b' '\x7d' depth (layoutFields (depth + 1) fields)

/-- The elements of an array at some depth. -/
def layoutItems (depth : Nat) : List Json → List (List Char)
  | [] => []
  | item :: items => layout depth item :: layoutItems depth items

/-- The fields of an object at some depth. -/
def layoutFields (depth : Nat) : List (String × Json) → List (List Char)
  | [] => []
  | (key, value) :: fields =>
    (quoted key ++ [':', ' '] ++ layout depth value) :: layoutFields depth fields

end

/-- The text of a value. -/
def pretty (j : Json) : String := String.ofList (layout 0 j)

end Json

end Interop.Text
