/-
# The shortest decimal form of a binary number

A number is written with the fewest decimal digits from which it can be read back, and of
those digits with the ones nearest to it.  A decimal reads back as a binary number when it lies
between the midpoints to its two neighbours; the midpoints themselves belong to it when its
mantissa is even.
-/
import Interop.Binary

namespace Interop.Decimal

/-- The positive number `num / den`. -/
structure Ratio where
  num : Nat
  den : Nat

/-- The ratio `n * 2 ^ e / 10 ^ k`. -/
def Ratio.scaled (n : Nat) (e k : Int) : Ratio :=
  ⟨n * twoPow e.toNat * Nat.pow 10 (-k).toNat, twoPow (-e).toNat * Nat.pow 10 k.toNat⟩

/-- The decimals that read back as `m * 2 ^ e`, in units of `2 ^ (e - 2)`: from `low` to `high`,
ends included if `closed`. -/
structure Window where
  low : Nat
  value : Nat
  high : Nat
  exponent : Int
  closed : Bool

/-- The window of `m * 2 ^ e`. -/
def Window.of (m : Nat) (e : Int) (narrow : Bool) : Window :=
  ⟨4 * m - (if narrow then 1 else 2), 4 * m, 4 * m + 2, e - 2, m % 2 = 0⟩

/-- Tells whether `d * 10 ^ k` lies in a window. -/
def Window.holds (w : Window) (d : Nat) (k : Int) : Bool :=
  let low := Ratio.scaled w.low w.exponent k
  let high := Ratio.scaled w.high w.exponent k
  if w.closed then low.num ≤ d * low.den && d * high.den ≤ high.num
  else low.num < d * low.den && d * high.den < high.num

/-- The multiple of `10 ^ k` in a window that is nearest to the value, as the factor.  Only the
two multiples around the value need a look.  Of two equally near ones it is the larger. -/
def Window.nearest? (w : Window) (k : Int) : Option Nat :=
  let v := Ratio.scaled w.value w.exponent k
  let below := v.num / v.den
  let above := below + 1
  if w.holds below k then
    if w.holds above k && (above * v.den - v.num ≤ v.num - below * v.den) then some above
    else some below
  else if w.holds above k then some above
  else none

/-- The coarsest grid, of the next `n` from `10 ^ k` down, with a decimal in the window: its
factor and exponent. -/
def Window.search (w : Window) : Nat → Int → Nat × Int
  | 0, k =>
    let v := Ratio.scaled w.value w.exponent k
    (v.num / v.den, k)
  | n + 1, k =>
    match w.nearest? k with
    | some d => (d, k)
    | none => w.search n (k - 1)

/-- The exponent of the first decimal digit of `m * 2 ^ e`, for the exponents of the formats
here. -/
def leadingExponent (m : Nat) (e : Int) : Int :=
  let v := Ratio.scaled m e (-400)
  (Nat.toDigits 10 (v.num / v.den)).length - 1 - 400

/-- The digits of `d * 10 ^ k` without exponent, and without zeros at the end of a fraction. -/
def positional (d : Nat) (k : Int) : List Char :=
  let digits := Nat.toDigits 10 d
  if 0 ≤ k then digits ++ List.replicate k.toNat '0'
  else
    let places := (-k).toNat
    let padded := List.replicate (places + 1 - digits.length) '0' ++ digits
    let whole := padded.take (padded.length - places)
    let fraction := (padded.drop (padded.length - places)).reverse.dropWhile (· == '0')
    if fraction.isEmpty then whole else whole ++ '.' :: fraction.reverse

/-- The text of a number that is read from its bits. -/
def text : BinaryClass → String
  | .nan => "NaN"
  | .infinite negative => if negative then "-inf" else "inf"
  | .finite negative m e narrow =>
    let sign := if negative then "-" else ""
    if m = 0 then sign ++ "0"
    else
      let (d, k) := (Window.of m e narrow).search 18 (leadingExponent m e)
      sign ++ String.ofList (positional d k)

end Interop.Decimal
