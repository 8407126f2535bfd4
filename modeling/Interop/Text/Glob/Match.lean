/-
# Texts of a form

A part of a pattern leads from places in a text to places further on: to those where a text
that the part stands for ends.  All places are followed at once, so that the work for a part
grows with the length of the text alone, however many ways there are to reach a place.

Main definitions:
* `Part.lead` is where a part leads from some places;
* `leadAll` is where parts in a row lead.
-/
import Interop.Text.Glob.Part

namespace Interop.Text.Glob

/-- A set of places in a text: for each place, from the one before the first character to the
one after the last, whether it belongs to the set. -/
abbrev Places := List Bool

namespace Places

/-- The place before a text. -/
def start (cs : List Char) : Places := true :: cs.map fun _ => false

/-- The places right after a character with a property that stands at a place of a set. -/
def advance (p : Char → Bool) (cs : List Char) (here : Places) : Places :=
  false :: List.zipWith (fun c reached => reached && p c) cs here

/-- The places of a set and all places after them. -/
def onward : Places → Places
  | [] => []
  | true :: here => true :: here.map fun _ => true
  | false :: here => false :: onward here

/-- The places of either of two sets. -/
def join (here there : Places) : Places := List.zipWith (· || ·) here there

/-- The set without places. -/
def clear (here : Places) : Places := here.map fun _ => false

/-- The places of a set, and those after any slash further on. -/
def pieces (cs : List Char) (here : Places) : Places :=
  here.join (here.onward.advance (· == '/') cs)

/-- Tells whether the place after the text belongs to a set. -/
def reachesEnd (here : Places) : Bool := here.getLast? == some true

@[simp]
theorem length_start (cs : List Char) : (start cs).length = cs.length + 1 := by simp [start]

theorem length_advance (p : Char → Bool) (cs : List Char) (here : Places)
    (h : here.length = cs.length + 1) : (here.advance p cs).length = cs.length + 1 := by
  simp [advance, h]

@[simp]
theorem length_onward (here : Places) : here.onward.length = here.length := by
  fun_induction onward here <;> simp_all

theorem getElem?_advance_zero (p : Char → Bool) (cs : List Char) (here : Places) :
    (here.advance p cs)[0]? = some false := rfl

/-- A place is reached over the character before it. -/
theorem getElem?_advance_succ (p : Char → Bool) (cs : List Char) (here : Places) (i : Nat) :
    (here.advance p cs)[i + 1]? = some true ↔
      here[i]? = some true ∧ ∃ c, cs[i]? = some c ∧ p c = true := by
  simp only [advance, List.getElem?_cons_succ, List.getElem?_zipWith]
  cases hc : cs[i]? <;> cases hh : here[i]? <;> simp

end Places

mutual

/-- Where a part leads from some places of a text. -/
def Part.lead (cs : List Char) : Part → Places → Places
  | .literal c, here => here.advance (· == c) cs
  | .anyChar, here => here.advance (fun _ => true) cs
  | .anyText, here => here.onward
  | .oneOf s, here => here.advance s.contains cs
  | .group alternatives, here =>
    if alternatives.isEmpty then here else leadSome cs alternatives here
  | .folders, here => here.pieces cs
  | .inside, here => (here.advance (· == '/') cs).onward
  | .between, here => (here.advance (· == '/') cs).pieces cs

/-- Where some parts in a row lead. -/
def leadAll (cs : List Char) : List Part → Places → Places
  | [], here => here
  | p :: ps, here => leadAll cs ps (p.lead cs here)

/-- Where any of some alternatives leads. -/
def leadSome (cs : List Char) : List (List Part) → Places → Places
  | [], here => here.clear
  | alternative :: more, here => (leadAll cs alternative here).join (leadSome cs more here)

end

theorem leadAll_append (cs : List Char) (ps qs : List Part) (here : Places) :
    leadAll cs (ps ++ qs) here = leadAll cs qs (leadAll cs ps here) := by
  induction ps generalizing here with
  | nil => simp [leadAll]
  | cons p ps ih => simp [leadAll, ih]

end Interop.Text.Glob
