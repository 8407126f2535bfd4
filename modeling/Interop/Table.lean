/-
# Tables

Finite maps with the keys in the order in which they were first set.
-/

namespace Interop

/-- A finite map. -/
structure Table (κ α : Type) where
  entries : List (κ × α)

namespace Table

variable {κ α : Type} [DecidableEq κ]

/-- The map without keys. -/
def empty : Table κ α := ⟨[]⟩

/-- The value of a key. -/
def get? (t : Table κ α) (k : κ) : Option α := t.entries.lookup k

/-- Gives a key its value among some entries. -/
def setEntry (k : κ) (a : α) : List (κ × α) → List (κ × α)
  | [] => [(k, a)]
  | (l, b) :: rest => if k = l then (l, a) :: rest else (l, b) :: setEntry k a rest

/-- Gives a key its value, in place of any it had. -/
def set (t : Table κ α) (k : κ) (a : α) : Table κ α := ⟨setEntry k a t.entries⟩

@[simp]
theorem get?_empty (k : κ) : (empty : Table κ α).get? k = none := rfl

theorem lookup_setEntry (k l : κ) (a : α) (entries : List (κ × α)) :
    (setEntry k a entries).lookup l = if l = k then some a else entries.lookup l := by
  induction entries with
  | nil =>
    by_cases h : l = k
    · simp [setEntry, h]
    · simp [setEntry, List.lookup_cons, h, beq_eq_false_iff_ne.mpr h]
  | cons e rest ih =>
    obtain ⟨m, b⟩ := e
    by_cases hk : k = m
    · subst hk
      by_cases hl : l = k
      · simp [setEntry, hl]
      · simp [setEntry, List.lookup_cons, hl, beq_eq_false_iff_ne.mpr hl]
    · by_cases hl : l = m
      · subst hl
        simp [setEntry, hk, if_neg (Ne.symm hk)]
      · simp [setEntry, List.lookup_cons, hk, beq_eq_false_iff_ne.mpr hl, ih]

theorem get?_set (t : Table κ α) (k l : κ) (a : α) :
    (t.set k a).get? l = if l = k then some a else t.get? l :=
  lookup_setEntry k l a t.entries

end Table

end Interop
