/-
# What managed code cannot change

Whatever the code of a member does, the call that it runs in stays a call of the same function
for the same receiver, with as many arguments.
-/
import Interop.Managed.Program
import Mathlib.Tactic.Common

namespace Interop.Managed

/-- One state of a call and a later one: the function, the receiver and the number of the
arguments are the same. -/
structure Call.Continues (c c' : Call) : Prop where
  function : c'.function = c.function
  receiver : c'.receiver = c.receiver
  length : c'.arguments.length = c.arguments.length

namespace Call.Continues

lemma refl (c : Call) : c.Continues c := ⟨rfl, rfl, rfl⟩

lemma trans {c₁ c₂ c₃ : Call} (h : c₁.Continues c₂) (h' : c₂.Continues c₃) : c₁.Continues c₃ :=
  ⟨h'.function.trans h.function, h'.receiver.trans h.receiver, h'.length.trans h.length⟩

end Call.Continues

lemma Program.continues_run (p : Program) : ∀ c, Call.Continues c (p.run c).2 := by
  induction p with
  | done result => exact Call.Continues.refl
  | observe next ih => exact fun c => ih c c
  | setArgument i v next ih =>
    intro c
    rw [run]
    split
    · refine Call.Continues.trans ?_ (ih _)
      exact ⟨rfl, rfl, List.length_set⟩
    · exact .refl c
  | setStatic name v next ih =>
    intro c
    rw [run]
    refine .trans ?_ (ih _)
    exact ⟨rfl, rfl, rfl⟩
  | setField o name v next ih =>
    intro c
    rw [run]
    refine .trans ?_ (ih _)
    exact ⟨rfl, rfl, rfl⟩
  | setItem a i v next ih =>
    intro c
    rw [run]
    refine .trans ?_ (ih _)
    exact ⟨rfl, rfl, rfl⟩
  | newObject type next ih =>
    intro c
    rw [run]
    refine .trans ?_ (ih _ _)
    exact ⟨rfl, rfl, rfl⟩
  | newArray items next ih =>
    intro c
    rw [run]
    refine .trans ?_ (ih _ _)
    exact ⟨rfl, rfl, rfl⟩

end Interop.Managed
