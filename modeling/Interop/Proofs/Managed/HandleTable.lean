/-
# Handles are kept

A table of handles only grows (`t ≤ t'`: what is in `t` stands at the same places in `t'` and is
found under the same handles), so an object keeps its handle and a handle its object.  In the
tables that there can be, the places and the handles by object are inverse to each other: a handle
resolves to an object exactly when it is the handle of that object.
-/
import Interop.Managed.HandleTable
import Mathlib.Data.List.Infix
import Mathlib.Order.Defs.PartialOrder

namespace Interop.Managed.HandleTable

open Native

/-- A table extends another if it has all its handles, each at its place and for its object. -/
instance : Preorder HandleTable where
  le t t' := t.slots <+: t'.slots ∧ ∀ o h, t.byObject.get? o = some h → t'.byObject.get? o = some h
  le_refl t := ⟨List.prefix_refl t.slots, fun _ _ h => h⟩
  le_trans _ _ _ h h' := ⟨h.1.trans h'.1, fun o k hk => h'.2 o k (h.2 o k hk)⟩

lemma le_def {t t' : HandleTable} : t ≤ t' ↔ t.slots <+: t'.slots ∧
    ∀ o h, t.byObject.get? o = some h → t'.byObject.get? o = some h := Iff.rfl

/-! ### The handle of an object -/

/-- An object has its handle already, or it comes to the end with the handle of that place. -/
lemma root_cases (t : HandleTable) (o : ObjectRef) :
    (∃ h, t.byObject.get? o = some h ∧ t.root o = (h, t)) ∨
    t.byObject.get? o = none ∧ t.root o = (handleAt t.slots.length,
      ⟨t.slots ++ [o], t.byObject.set o (handleAt t.slots.length)⟩) := by
  rw [root]
  cases hfound : t.byObject.get? o with
  | some h => exact Or.inl ⟨h, rfl, rfl⟩
  | none => exact Or.inr ⟨rfl, rfl⟩

lemma le_root (t : HandleTable) (o : ObjectRef) : t ≤ (t.root o).2 := by
  rcases t.root_cases o with ⟨h, _, hroot⟩ | ⟨hnew, hroot⟩
  · rw [hroot]
  · rw [hroot, le_def]
    refine ⟨List.prefix_append _ _, ?_⟩
    intro p h hp
    have hne : p ≠ o := by
      rintro rfl
      rw [hnew] at hp
      cases hp
    rw [Table.get?_set, if_neg hne]
    exact hp

/-- After an object got its handle, it is found under it. -/
lemma get?_root (t : HandleTable) (o : ObjectRef) :
    (t.root o).2.byObject.get? o = some (t.root o).1 := by
  rcases t.root_cases o with ⟨h, hfound, hroot⟩ | ⟨_, hroot⟩
  · rw [hroot]
    exact hfound
  · rw [hroot, Table.get?_set, if_pos rfl]

lemma root_of_get? {t : HandleTable} {o : ObjectRef} {h : Handle}
    (hfound : t.byObject.get? o = some h) : t.root o = (h, t) := by
  rw [root, hfound]

lemma mem_slots_root {t : HandleTable} {o p : ObjectRef} (h : p ∈ (t.root o).2.slots) :
    p ∈ t.slots ∨ p = o := by
  rcases t.root_cases o with ⟨_, _, hroot⟩ | ⟨_, hroot⟩
  · rw [hroot] at h
    exact Or.inl h
  · rw [hroot] at h
    rcases List.mem_append.mp h with h | h
    · exact Or.inl h
    · exact Or.inr (List.mem_singleton.mp h)

/-- An object keeps its handle. -/
lemma root_of_le {t t' : HandleTable} {o : ObjectRef} (h : (t.root o).2 ≤ t') :
    t'.root o = ((t.root o).1, t') :=
  root_of_get? (h.2 o _ (t.get?_root o))

/-! ### The object of a handle -/

lemma resolve?_eq_some_iff {t : HandleTable} {h : Handle} {o : ObjectRef} :
    t.resolve? h = some o ↔ ∃ i, t.slots[i]? = some o ∧ h = handleAt i := by
  obtain ⟨raw, hne⟩ := h
  simp only [resolve?, handleAt, Handle.mk.injEq]
  constructor
  · intro hget
    exact ⟨raw - 1, hget, by omega⟩
  · rintro ⟨i, hget, rfl⟩
    exact hget

/-- A handle keeps its object. -/
lemma resolve?_of_le {t t' : HandleTable} {h : Handle} {o : ObjectRef} (hle : t ≤ t')
    (hres : t.resolve? h = some o) : t'.resolve? h = some o := by
  obtain ⟨rest, hrest⟩ := hle.1
  obtain ⟨hlt, _⟩ := List.getElem?_eq_some_iff.mp hres
  rw [resolve?, ← hrest, List.getElem?_append_left hlt]
  exact hres

/-- The handle of the next place resolves to nothing. -/
lemma resolve?_handleAt_length (t : HandleTable) : t.resolve? (handleAt t.slots.length) = none :=
  List.getElem?_eq_none (Nat.le_refl _)

/-- With one more object, the handle of its place resolves to it, and all others as before. -/
lemma resolve?_append (t : HandleTable) (o : ObjectRef) (byObject : Table ObjectRef Handle)
    (h : Handle) :
    (⟨t.slots ++ [o], byObject⟩ : HandleTable).resolve? h =
      if h = handleAt t.slots.length then some o else t.resolve? h := by
  obtain ⟨raw, hne⟩ := h
  simp only [resolve?, handleAt, Handle.mk.injEq, List.getElem?_append, List.getElem?_singleton]
  split
  · rename_i hlt
    rw [if_neg (by omega)]
  · rename_i hge
    rw [List.getElem?_eq_none (Nat.le_of_not_lt hge)]
    split
    · rw [if_pos (by omega)]
    · rw [if_neg (by omega)]

/-- When an object gets its handle, no other handle starts to resolve. -/
lemma resolve?_of_root {t : HandleTable} {o p : ObjectRef} {h : Handle}
    (hres : (t.root o).2.resolve? h = some p) (hne : h ≠ (t.root o).1) :
    t.resolve? h = some p := by
  rcases t.root_cases o with ⟨_, _, hroot⟩ | ⟨_, hroot⟩
  · rwa [hroot] at hres
  · rw [hroot] at hres hne
    rwa [resolve?_append, if_neg hne] at hres

/-! ### The tables that there can be -/

/-- The tables that there can be: objects get handles one after the other. -/
inductive Reachable : HandleTable → Prop
  | empty : Reachable empty
  | root {t : HandleTable} (h : t.Reachable) (o : ObjectRef) : Reachable (t.root o).2

/-- The places and the handles by object are inverse to each other. -/
lemma Reachable.get?_iff {t : HandleTable} (ht : t.Reachable) :
    ∀ {o : ObjectRef} {h : Handle}, t.byObject.get? o = some h ↔ t.resolve? h = some o := by
  induction ht with
  | empty =>
    intro o h
    rw [resolve?_eq_some_iff]
    constructor
    · intro hfound
      cases hfound
    · rintro ⟨i, hget, _⟩
      cases hget
  | @root t _ o ih =>
    rcases t.root_cases o with ⟨_, _, hroot⟩ | ⟨hnew, hroot⟩
    · rw [hroot]
      exact ih
    · intro p h
      rw [hroot, Table.get?_set, resolve?_append]
      -- both the object and its handle are new
      by_cases hp : p = o
      · subst hp
        rw [if_pos rfl, Option.some.injEq]
        constructor
        · rintro rfl
          rw [if_pos rfl]
        · intro hres
          by_contra hne
          rw [if_neg (Ne.symm hne), ← ih, hnew] at hres
          cases hres
      · rw [if_neg hp, ih]
        split
        · rename_i hat
          subst hat
          rw [resolve?_handleAt_length]
          simp [Ne.symm hp]
        · rfl

/-- The handle of an object resolves to it. -/
lemma Reachable.resolve?_root {t : HandleTable} (ht : t.Reachable) (o : ObjectRef) :
    (t.root o).2.resolve? (t.root o).1 = some o :=
  (ht.root o).get?_iff.mp (t.get?_root o)

/-- The object of a handle has that handle. -/
lemma Reachable.root_of_resolve? {t : HandleTable} (ht : t.Reachable) {h : Handle}
    {o : ObjectRef} (hres : t.resolve? h = some o) : t.root o = (h, t) :=
  root_of_get? (ht.get?_iff.mpr hres)

end Interop.Managed.HandleTable
