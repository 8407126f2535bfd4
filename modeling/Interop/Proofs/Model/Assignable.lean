/-
# Classes and their bases

An object of a class can stand where one of another is wanted if the bases of its class lead to the
other in some number of steps (`isAssignable_iff`).  The steps are counted, and no more are taken
than there are classes; that is enough, since a longer way visits some class twice and can be cut
short between the two visits.  So assignability can be chained.
-/
import Interop.Model.Basic
import Mathlib.Data.Finset.Card
import Mathlib.Tactic.Common

namespace Interop.Model.BindingModel

variable (m : BindingModel)

/-- The class that a number of steps from classes to their bases leads to. -/
def ancestor? : Nat → TypePath → Option TypePath
  | 0, path => some path
  | n + 1, path => (m.base? path).bind (ancestor? n)

lemma ancestor?_add (k n : Nat) (path : TypePath) :
    m.ancestor? (k + n) path = (m.ancestor? k path).bind (m.ancestor? n) := by
  induction k generalizing path with
  | zero => rw [Nat.zero_add]; rfl
  | succ k ih =>
    rw [Nat.succ_add, ancestor?, ancestor?, Option.bind_assoc]
    exact congrArg (m.base? path).bind (funext ih)

variable {m}

lemma reaches_iff {expected : TypePath} {n : Nat} {path : TypePath} :
    m.reaches expected n path = true ↔ ∃ k ≤ n, m.ancestor? k path = some expected := by
  induction n generalizing path with
  | zero =>
    rw [reaches]
    constructor
    · intro h
      exact ⟨0, le_rfl, by rw [ancestor?, of_decide_eq_true h]⟩
    · rintro ⟨k, hk, h⟩
      obtain rfl := Nat.le_zero.mp hk
      exact decide_eq_true (Option.some.inj h)
  | succ n ih =>
    rw [reaches, Bool.or_eq_true, decide_eq_true_iff]
    constructor
    · rintro (rfl | h)
      · exact ⟨0, Nat.zero_le _, rfl⟩
      · cases hbase : m.base? path with
        | none => rw [hbase] at h; cases h
        | some base =>
          rw [hbase] at h
          obtain ⟨k, hk, hup⟩ := ih.mp h
          exact ⟨k + 1, Nat.succ_le_succ hk, by rw [ancestor?, hbase]; exact hup⟩
    · rintro ⟨k, hk, hup⟩
      cases k with
      | zero => exact Or.inl (Option.some.inj hup)
      | succ k =>
        rw [ancestor?] at hup
        obtain ⟨base, hbase, hup⟩ := Option.bind_eq_some_iff.mp hup
        rw [hbase]
        exact Or.inr (ih.mpr ⟨k, Nat.le_of_succ_le_succ hk, hup⟩)

/-- What has a base is a class. -/
lemma mem_classes_of_base? {path base : TypePath} (h : m.base? path = some base) :
    path ∈ m.classes.map (·.path) := by
  obtain ⟨c, hc, _⟩ := Option.bind_eq_some_iff.mp h
  obtain ⟨hmem, rfl⟩ := mem_of_class? hc
  exact List.mem_map_of_mem hmem

/-- On a way of some steps, all that is left behind are classes. -/
lemma exists_class_of_lt {k i : Nat} {path expected : TypePath}
    (h : m.ancestor? k path = some expected) (hi : i < k) :
    ∃ c ∈ m.classes, m.ancestor? i path = some c.path := by
  obtain ⟨j, rfl⟩ : ∃ j, k = i + (j + 1) := ⟨k - i - 1, by omega⟩
  rw [ancestor?_add] at h
  obtain ⟨middle, hmiddle, hup⟩ := Option.bind_eq_some_iff.mp h
  rw [ancestor?] at hup
  obtain ⟨base, hbase, _⟩ := Option.bind_eq_some_iff.mp hup
  obtain ⟨c, hc, rfl⟩ := List.mem_map.mp (mem_classes_of_base? hbase)
  exact ⟨c, hc, hmiddle⟩

/-- A way with more steps than there are classes can be cut short. -/
lemma exists_shorter {k : Nat} {path expected : TypePath}
    (h : m.ancestor? k path = some expected) (hk : m.classes.length < k) :
    ∃ k' < k, m.ancestor? k' path = some expected := by
  -- two of the first `k` stops are the same class
  obtain ⟨i, hi, j, hj, hne, hsame⟩ := Finset.exists_ne_map_eq_of_card_lt_of_maps_to
    (s := Finset.range k) (t := (m.classes.map fun c => some c.path).toFinset)
    (f := fun i => m.ancestor? i path) (by
      refine lt_of_le_of_lt (List.toFinset_card_le _) ?_
      rwa [List.length_map, Finset.card_range])
    (by
      intro i hi
      obtain ⟨c, hc, hstop⟩ := exists_class_of_lt h (Finset.mem_range.mp hi)
      exact List.mem_toFinset.mpr (List.mem_map.mpr ⟨c, hc, hstop.symm⟩))
  -- what follows the later visit can follow the earlier one
  have hcut : ∀ {i j : Nat}, i < j → j < k → m.ancestor? i path = m.ancestor? j path →
      ∃ k' < k, m.ancestor? k' path = some expected := by
    intro i j hij hjk hsame
    refine ⟨i + (k - j), by omega, ?_⟩
    rw [ancestor?_add, hsame, ← ancestor?_add, Nat.add_sub_cancel' (Nat.le_of_lt hjk)]
    exact h
  rcases Nat.lt_or_gt_of_ne hne with hij | hij
  · exact hcut hij (Finset.mem_range.mp hj) hsame
  · exact hcut hij (Finset.mem_range.mp hi) hsame.symm

/-- A class that can be reached at all can be reached in as many steps as there are classes. -/
lemma exists_le_length {path expected : TypePath} (k : Nat)
    (h : m.ancestor? k path = some expected) :
    ∃ k' ≤ m.classes.length, m.ancestor? k' path = some expected := by
  induction k using Nat.strong_induction_on with
  | h k ih =>
    by_cases hk : k ≤ m.classes.length
    · exact ⟨k, hk, h⟩
    · obtain ⟨k', hlt, h'⟩ := exists_shorter h (Nat.lt_of_not_le hk)
      exact ih k' hlt h'

/-- A class is assignable to those that its bases lead to. -/
lemma isAssignable_iff {actual expected : TypePath} :
    m.isAssignable actual expected = true ↔ ∃ k, m.ancestor? k actual = some expected := by
  rw [isAssignable, reaches_iff]
  constructor
  · rintro ⟨k, _, h⟩
    exact ⟨k, h⟩
  · rintro ⟨k, h⟩
    exact exists_le_length k h

lemma isAssignable_trans {p q r : TypePath} (h : m.isAssignable p q = true)
    (h' : m.isAssignable q r = true) : m.isAssignable p r = true := by
  obtain ⟨k, hk⟩ := isAssignable_iff.mp h
  obtain ⟨n, hn⟩ := isAssignable_iff.mp h'
  refine isAssignable_iff.mpr ⟨k + n, ?_⟩
  rw [ancestor?_add, hk]
  exact hn

end Interop.Model.BindingModel
