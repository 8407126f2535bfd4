/-
# Similar names

The Jaro-Winkler similarity of two words, by which a mistyped name finds the name that was
meant.  Two characters match when they are equal and not too far apart; a word's score grows
with the number of matches, falls with the number of matches out of order, and grows again
with the length of a common beginning.
-/

namespace Interop.Text

namespace Similarity

/-- Marks the first character equal to `c`, not marked yet, whose place (counted from `i`) is
at least `lo` and below `hi`. -/
def mark? (c : Char) (lo hi : Nat) : Nat → List (Char × Bool) → Option (List (Char × Bool))
  | _, [] => none
  | i, (d, marked) :: rest =>
    if lo ≤ i ∧ i < hi ∧ marked = false ∧ c = d then some ((d, true) :: rest)
    else (mark? c lo hi (i + 1) rest).map ((d, marked) :: ·)

/-- Matches the characters of a word, the first of which stands at `i`, from left to right with
characters at most `reach` places away.  Gives the characters that found a match, and the other
word with the matched characters marked. -/
def matchFrom (reach : Nat) : Nat → List Char → List (Char × Bool) →
    List Char × List (Char × Bool)
  | _, [], other => ([], other)
  | i, c :: cs, other =>
    match mark? c (i - reach) (i + reach + 1) 0 other with
    | some other =>
      let (matched, other) := matchFrom reach (i + 1) cs other
      (c :: matched, other)
    | none => matchFrom reach (i + 1) cs other

/-- The Jaro similarity: 1 for equal words, 0 for words without a match. -/
def jaro (a b : List Char) : Float :=
  if a.isEmpty && b.isEmpty then 1.0
  else if a.isEmpty || b.isEmpty then 0.0
  else
    let reach := max a.length b.length / 2 - 1
    let (left, marked) := matchFrom reach 0 a (b.map (·, false))
    let right := (marked.filter (·.2)).map (·.1)
    let transposed := ((left.zip right).filter fun (c, d) => c != d).length / 2
    if left.isEmpty then 0.0
    else
      let m := left.length.toFloat
      (m / a.length.toFloat + m / b.length.toFloat + (m - transposed.toFloat) / m) / 3.0

/-- The number of characters, at most four, with which both words begin. -/
def commonStart (a b : List Char) : Nat :=
  (((a.zip b).take 4).takeWhile fun (c, d) => c == d).length

/-- The Jaro similarity, raised for a common beginning when it is above 0.7. -/
def jaroWinkler (a b : List Char) : Float :=
  let s := jaro a b
  if s > 0.7 then s + 0.1 * (commonStart a b).toFloat * (1.0 - s) else s

end Similarity

/-- The candidate most similar to a name, the first of several; none that scores below 0.8. -/
def suggest? (name : String) (candidates : List String) : Option String :=
  let better (best : Option (Float × String)) (candidate : String) : Option (Float × String) :=
    let score := Similarity.jaroWinkler name.toList candidate.toList
    if score < 0.8 then best
    else
      match best with
      | some (bestScore, _) => if bestScore ≥ score then best else some (score, candidate)
      | none => some (score, candidate)
  (candidates.foldl better none).map (·.2)

end Interop.Text
