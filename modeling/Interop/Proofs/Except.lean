/-
# Computations that may fail

Where a computation made of others succeeds, each of them has, and where it fails, one of them has.
These lemmas take such computations apart: mapped ones, ones done one after the other, and one for
each element of a list.
-/
import Mathlib.Tactic.Common

namespace Interop

variable {ε α β : Type}

/-! ### Results -/

section

variable {x : Except ε α}

lemma exists_ok_of_isSome (h : x.toOption.isSome = true) : ∃ a, x = .ok a := by
  cases x with
  | error e => cases h
  | ok a => exact ⟨a, rfl⟩

lemma eq_ok_of_toOption {a : α} (h : x.toOption = some a) : x = .ok a := by
  cases x with
  | error e => cases h
  | ok b => exact congrArg Except.ok (Option.some.inj h)

lemma exists_of_toOption_any {p : α → Bool} (h : x.toOption.any p = true) :
    ∃ a, x = .ok a ∧ p a = true := by
  obtain ⟨a, ha, hp⟩ := (Option.any_eq_true ..).mp h
  exact ⟨a, eq_ok_of_toOption ha, hp⟩

/-! ### One computation on another -/

lemma toOption_map (f : α → β) (x : Except ε α) : (x.map f).toOption = x.toOption.map f := by
  cases x <;> rfl

lemma map_eq_ok_iff {f : α → β} {y : β} : x.map f = .ok y ↔ ∃ a, x = .ok a ∧ f a = y := by
  cases x with
  | error e => simp [Except.map]
  | ok a => simp [Except.map]

lemma eq_error_of_map {f : α → β} {e : ε} (h : x.map f = .error e) : x = .error e := by
  cases x with
  | error e' => cases h; rfl
  | ok a => cases h

lemma map_eq_error_iff {f : α → β} {e : ε} : x.map f = .error e ↔ x = .error e := by
  refine ⟨eq_error_of_map, ?_⟩
  rintro rfl
  rfl

lemma exists_of_bind_ok {f : α → Except ε β} {b : β} (h : (x >>= f) = .ok b) :
    ∃ a, x = .ok a ∧ f a = .ok b := by
  cases x with
  | error e => cases h
  | ok a => exact ⟨a, rfl, h⟩

lemma error_or_of_bind {f : α → Except ε β} {e : ε} (h : (x >>= f) = .error e) :
    x = .error e ∨ ∃ a, x = .ok a ∧ f a = .error e := by
  cases x with
  | error e' =>
    cases h
    exact .inl rfl
  | ok a => exact .inr ⟨a, rfl, h⟩

end

/-! ### One computation for each element -/

variable {f : α → Except ε β} (xs : List α)

lemma exists_of_mapM_error {e : ε} (h : xs.mapM f = .error e) : ∃ x ∈ xs, f x = .error e := by
  induction xs with
  | nil => cases h
  | cons x xs ih =>
    rw [List.mapM_cons] at h
    rcases error_or_of_bind h with hx | ⟨y, -, h⟩
    · exact ⟨x, List.mem_cons_self, hx⟩
    · rcases error_or_of_bind h with hrest | ⟨ys, -, ⟨⟩⟩
      obtain ⟨z, hz, hfz⟩ := ih hrest
      exact ⟨z, List.mem_cons_of_mem _ hz, hfz⟩

lemma forall₂_of_mapM :
    ∀ {ys : List β}, xs.mapM f = .ok ys → List.Forall₂ (fun x y => f x = .ok y) xs ys := by
  induction xs with
  | nil =>
    intro ys h
    cases h
    exact .nil
  | cons x xs ih =>
    intro ys h
    rw [List.mapM_cons] at h
    obtain ⟨y, hx, h⟩ := exists_of_bind_ok h
    obtain ⟨ys, hrest, h⟩ := exists_of_bind_ok h
    cases h
    exact .cons hx (ih hrest)

lemma exists_of_mem_mapM :
    ∀ {ys : List β}, xs.mapM f = .ok ys → ∀ y ∈ ys, ∃ x ∈ xs, f x = .ok y := by
  induction xs with
  | nil =>
    intro ys h y hy
    cases h
    cases hy
  | cons x xs ih =>
    intro ys h y hy
    rw [List.mapM_cons] at h
    obtain ⟨y', hx, h⟩ := exists_of_bind_ok h
    obtain ⟨ys', hrest, h⟩ := exists_of_bind_ok h
    cases h
    rcases List.mem_cons.mp hy with rfl | hy
    · exact ⟨x, List.mem_cons_self, hx⟩
    · obtain ⟨z, hz, hfz⟩ := ih hrest y hy
      exact ⟨z, List.mem_cons_of_mem _ hz, hfz⟩

lemma mem_of_mapM {x : α} {y : β} (hx : x ∈ xs) (hy : f x = .ok y) :
    ∀ {ys : List β}, xs.mapM f = .ok ys → y ∈ ys := by
  induction xs with
  | nil => cases hx
  | cons z zs ih =>
    intro ys h
    rw [List.mapM_cons] at h
    obtain ⟨y', hz, h⟩ := exists_of_bind_ok h
    obtain ⟨ys', hrest, h⟩ := exists_of_bind_ok h
    cases h
    rcases List.mem_cons.mp hx with rfl | hx
    · obtain rfl := Except.ok.inj (hz.symm.trans hy)
      exact List.mem_cons_self
    · exact List.mem_cons_of_mem _ (ih hx hrest)

lemma mapM_ok (h : ∀ x ∈ xs, ∃ y, f x = .ok y) :
    ∃ ys, xs.mapM f = .ok ys ∧ ys.length = xs.length ∧
      ∀ (i : Nat) (x : α), xs[i]? = some x → ∃ y, ys[i]? = some y ∧ f x = .ok y := by
  induction xs with
  | nil => exact ⟨[], rfl, rfl, fun i x hx => by simp at hx⟩
  | cons x xs ih =>
    obtain ⟨y, hy⟩ := h x List.mem_cons_self
    obtain ⟨ys, hys, hlen, hget⟩ := ih fun x' hx' => h x' (List.mem_cons_of_mem _ hx')
    refine ⟨y :: ys, ?_, by rw [List.length_cons, List.length_cons, hlen], ?_⟩
    · rw [List.mapM_cons, hy, hys]
      rfl
    · intro i x' hx'
      cases i with
      | zero =>
        obtain rfl : x = x' := by simpa using hx'
        exact ⟨y, rfl, hy⟩
      | succ i => exact hget i x' (by simpa using hx')

end Interop
