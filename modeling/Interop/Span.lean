/-
# Spans

A span marks a piece of a source text by the offsets of its first character and of the
character after its last one.  Offsets count characters (Unicode scalar values), not bytes.
-/

namespace Interop

/-- The characters of a source text from `start` on and before `stop`. -/
structure Span where
  start : Nat
  stop : Nat
deriving DecidableEq, Inhabited

namespace Span

/-- The least span that covers both. -/
def merge (a b : Span) : Span := ⟨min a.start b.start, max a.stop b.stop⟩

/-- A span lies within another when it starts no earlier and stops no later. -/
def Within (a b : Span) : Prop := b.start ≤ a.start ∧ a.stop ≤ b.stop

theorem within_merge_left (a b : Span) : a.Within (a.merge b) :=
  ⟨Nat.min_le_left .., Nat.le_max_left ..⟩

theorem within_merge_right (a b : Span) : b.Within (a.merge b) :=
  ⟨Nat.min_le_right .., Nat.le_max_right ..⟩

end Span

end Interop
