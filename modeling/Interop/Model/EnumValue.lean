/-
# The values of enum items

Constant expressions are computed on signed numbers of 128 bits, wide enough for the items
of every enum.  A shift that leads out of them is a fault like others.  Nothing provides for
the negation of the least number: the program ends there.
-/
import Interop.Source.Tree

namespace Interop.Model

open Source

/-- Why an expression has no value. -/
inductive ExprFault
  | unknownItem (name : String)
  | shiftAmount (amount : Int)
  | shiftOverflow
  /-- The least number has no negation. -/
  | negationOverflow
deriving DecidableEq

/-- The wording of a fault. -/
def ExprFault.message : ExprFault → String
  | unknownItem name => s!"unknown item '{name}'"
  | shiftAmount amount => s!"shift amount {amount} is out of range"
  | shiftOverflow => "shift overflows"
  | negationOverflow => "attempt to negate with overflow"

/-- Tells whether the program ends with a fault, before it can report anything. -/
def ExprFault.isFatal : ExprFault → Bool
  | negationOverflow => true
  | unknownItem _ | shiftAmount _ | shiftOverflow => false

/-- Tells whether a number is one of 128 bits with sign. -/
def fits128 (n : Int) : Bool := -twoPow 127 ≤ n && n < twoPow 127

/-- The bitwise or of two numbers of 128 bits in two's complement. -/
def or128 (a b : Int) : Int := (BitVec.ofInt 128 a ||| BitVec.ofInt 128 b).toInt

end Interop.Model

namespace Interop.Source

open Model

/-- The value of an expression, given the values of the items before it. -/
def EnumExpr.value (values : List (String × Int)) : EnumExpr → Except ExprFault Int
  | literal v _ => .ok v.toNat
  | item name _ =>
    match values.lookup name with
    | some v => .ok v
    | none => .error (.unknownItem name)
  | negate operand _ => do
    let negated := -(← operand.value values)
    if fits128 negated then .ok negated else .error .negationOverflow
  | shiftLeft left right => do
    let v ← left.value values
    let amount ← right.value values
    if amount < 0 ∨ 64 ≤ amount then .error (.shiftAmount amount)
    else
      let shifted := v * twoPow amount.toNat
      if fits128 shifted then .ok shifted else .error .shiftOverflow
  | bitOr left right => do
    let v ← left.value values
    let w ← right.value values
    return or128 v w

end Interop.Source
