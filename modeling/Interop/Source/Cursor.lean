/-
# Reading a list of tokens

A cursor stands between two tokens: it knows the span of the one before it and the tokens
after it.  A reader takes a cursor and either gives a value and the cursor behind what it
read, or a syntax error.  The end of the file is never read past: at it, a reader that wants
another token fails, and a repetition stops.
-/
import Interop.Source.Error

namespace Interop.Source

/-- A place between two tokens. -/
structure Cursor where
  /-- The span of the token before this place. -/
  last : Span
  rest : List Lexeme

namespace Cursor

/-- The place before the first token. -/
def ofLexemes (ls : List Lexeme) : Cursor := ⟨(ls.head?.map (·.span)).getD ⟨0, 0⟩, ls⟩

/-- The token after this place; the end of the file when there is none. -/
def next (c : Cursor) : Lexeme := c.rest.headD ⟨.endOfFile, c.last⟩

/-- The place behind the next token.  The end of the file stays the next token. -/
def advance (c : Cursor) : Cursor :=
  match c.rest with
  | [] => c
  | l :: ls => if l.token = .endOfFile then c else ⟨l.span, ls⟩

end Cursor

/-- A reader of tokens. -/
def Reader (α : Type) : Type := Cursor → Except SyntaxError (α × Cursor)

namespace Reader

variable {α β : Type}

instance : Monad Reader where
  pure a := fun c => .ok (a, c)
  bind r f := fun c =>
    match r c with
    | .ok (a, c') => f a c'
    | .error e => .error e

@[simp]
theorem pure_apply (a : α) (c : Cursor) : (pure a : Reader α) c = .ok (a, c) := rfl

theorem bind_apply (r : Reader α) (f : α → Reader β) (c : Cursor) :
    (r >>= f) c = match r c with | .ok (a, c') => f a c' | .error e => .error e := rfl

/-- The next token, left where it is. -/
def next : Reader Lexeme := fun c => .ok (c.next, c)

/-- The token after the next one, left where it is. -/
def second? : Reader (Option Token) := fun c => .ok (c.rest[1]?.map (·.token), c)

/-- The span of the token read last. -/
def last : Reader Span := fun c => .ok (c.last, c)

/-- Moves over the next token. -/
def advance : Reader Unit := fun c => .ok ((), c.advance)

/-- Gives up with a fault at a place. -/
def fail (fault : SyntaxFault) (span : Span) : Reader α := fun _ => .error ⟨fault, span⟩

/-- Gives up because the next token is not what has to come. -/
def unexpected (what : String) : Reader α := do
  let l ← next
  fail (.expected what l.token) l.span

/-- Tells whether the next token is `t`. -/
def sees (t : Token) : Reader Bool := do return (← next).token = t

/-- Moves over the next token if it is `t`, and tells whether it was. -/
def accept (t : Token) : Reader Bool := do
  if ← sees t then
    advance
    return true
  else return false

/-- Moves over the next token, which has to be `t`. -/
def expect (t : Token) (what : String) : Reader Unit := do
  if ← sees t then advance else unexpected what

/-- Moves over the next token, which has to be an identifier. -/
def ident (what : String) : Reader String := do
  match (← next).token with
  | .ident name =>
    advance
    return name
  | _ => unexpected what

/-- The span from an offset to the end of the token read last. -/
def spanFrom (start : Nat) : Reader Span := do return ⟨start, (← last).stop⟩

/-- Runs a reader that may go round as often as there are tokens left. -/
def bounded (r : Nat → Reader α) : Reader α := fun c => r c.rest.length c

/-- At most `n` times: `item` until the next token is one to stop at or the file ends. -/
def untilTimes (stop : Token → Bool) (item : Reader α) : Nat → Reader (List α)
  | 0 => pure []
  | n + 1 => do
    let t := (← next).token
    if t = .endOfFile || stop t then return []
    let a ← item
    let as ← untilTimes stop item n
    return a :: as

/-- Repeats `item` until the next token is one to stop at or the file ends. -/
def untilToken (stop : Token → Bool) (item : Reader α) : Reader (List α) :=
  bounded (untilTimes stop item)

/-- One `item`, and at most `n` more with `separator` before each. -/
def separatedTimes (separator : Token) (item : Reader α) : Nat → Reader (List α)
  | 0 => do return [← item]
  | n + 1 => do
    let a ← item
    if ← accept separator then
      let as ← separatedTimes separator item n
      return a :: as
    else return [a]

/-- One or more `item`s with `separator` between them. -/
def separated (separator : Token) (item : Reader α) : Reader (List α) :=
  bounded (separatedTimes separator item)

/-- At most `n` `item`s with a comma between them, ended as `listed` says. -/
def listedTimes (stop : Token) (item : Reader α) : Nat → Reader (List α)
  | 0 => pure []
  | n + 1 => do
    let t := (← next).token
    if t = .endOfFile || t = stop then return []
    let a ← item
    if ← accept (.symbol .comma) then
      let as ← listedTimes stop item n
      return a :: as
    else return [a]

/-- Any number of `item`s with a comma between them; a last comma may stand before `stop`. -/
def listed (stop : Token) (item : Reader α) : Reader (List α) :=
  bounded (listedTimes stop item)

/-- `left`, then at most `n` times `operator` and `operand`, joined from the left. -/
def chainTimes (operator : Token) (operand : Reader α) (join : α → α → α) (left : α) :
    Nat → Reader α
  | 0 => pure left
  | n + 1 => do
    if ← accept operator then
      let right ← operand
      chainTimes operator operand join (join left right) n
    else return left

/-- One or more `operand`s with `operator` between them, joined from the left. -/
def chain (operator : Token) (operand : Reader α) (join : α → α → α) : Reader α := do
  let left ← operand
  bounded (chainTimes operator operand join left)

/-- The keywords that come next and satisfy `p`, at most `n` of them. -/
def keywordsTimes (p : Keyword → Bool) : Nat → Reader (List Keyword)
  | 0 => pure []
  | n + 1 => do
    match (← next).token with
    | .keyword k =>
      if p k then
        advance
        let ks ← keywordsTimes p n
        return k :: ks
      else return []
    | _ => return []

/-- The keywords that come next, as long as they satisfy `p`. -/
def keywords (p : Keyword → Bool) : Reader (List Keyword) := bounded (keywordsTimes p)

end Reader

end Interop.Source
