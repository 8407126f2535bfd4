/-
# The first owner keeps a name

The look-up in a table of native names after a claim.  What counts is the key of an owner:
`key?` gives the key behind a name, and a claim changes it only for a name that had no owner.
-/
import Interop.Model.SymbolTable
import Mathlib.Data.List.Basic

namespace Interop.Model.SymbolTable

variable {κ : Type}

/-- The key of the owner of a name. -/
def key? (t : SymbolTable κ) (symbol : String) : Option κ := (t.owner? symbol).map (·.key)

lemma owner?_append_self {t : SymbolTable κ} {symbol : String} (o : SymbolOwner κ)
    (h : t.owner? symbol = none) :
    (⟨t.entries ++ [(symbol, o)]⟩ : SymbolTable κ).owner? symbol = some o := by
  have hrest : t.entries.lookup symbol = none := h
  simp only [owner?, List.lookup_append, hrest, Option.none_or]
  exact List.lookup_cons_self

lemma owner?_append_of_ne {t : SymbolTable κ} {symbol other : String} (o : SymbolOwner κ)
    (h : other ≠ symbol) :
    (⟨t.entries ++ [(symbol, o)]⟩ : SymbolTable κ).owner? other = t.owner? other := by
  simp [owner?, List.lookup_append, List.lookup_cons, beq_eq_false_iff_ne.mpr h]

lemma owner?_claim_of_ne (t : SymbolTable κ) {symbol other : String} (c : SymbolOwner κ)
    (h : other ≠ symbol) : (t.claim symbol c).owner? other = t.owner? other := by
  rw [claim]
  split
  · rfl
  · exact owner?_append_of_ne c h

/-- A name that has an owner keeps it. -/
lemma owner?_claim_of_eq_some {t : SymbolTable κ} {symbol other : String} {c o : SymbolOwner κ}
    (h : t.owner? other = some o) : (t.claim symbol c).owner? other = some o := by
  by_cases hs : other = symbol
  · subst hs
    rw [claim, h]
    exact h
  · rw [owner?_claim_of_ne t c hs, h]

/-- A free name goes to the claimant. -/
lemma owner?_claim_self {t : SymbolTable κ} {symbol : String} {c : SymbolOwner κ}
    (h : t.owner? symbol = none) : (t.claim symbol c).owner? symbol = some c := by
  rw [claim, h]
  exact owner?_append_self c h

lemma key?_claim_of_ne (t : SymbolTable κ) {symbol other : String} (c : SymbolOwner κ)
    (h : other ≠ symbol) : (t.claim symbol c).key? other = t.key? other := by
  rw [key?, owner?_claim_of_ne t c h, key?]

lemma key?_claim_of_eq_some {t : SymbolTable κ} {symbol other : String} {c : SymbolOwner κ}
    {k : κ} (h : t.key? other = some k) : (t.claim symbol c).key? other = some k := by
  obtain ⟨o, ho, rfl⟩ := Option.map_eq_some_iff.mp h
  rw [key?, owner?_claim_of_eq_some ho, Option.map_some]

/-- A claim gives a name to nobody but the claimant. -/
lemma key?_claim_cases {t : SymbolTable κ} {symbol other : String} {c : SymbolOwner κ} {k : κ}
    (h : (t.claim symbol c).key? other = some k) :
    t.key? other = some k ∨ (other = symbol ∧ k = c.key) := by
  by_cases hs : other = symbol
  · cases ho : t.owner? symbol with
    | none =>
      rw [hs, key?, owner?_claim_self ho] at h
      exact Or.inr ⟨hs, (Option.some.inj h).symm⟩
    | some o =>
      rw [claim, ho] at h
      exact Or.inl h
  · rw [key?_claim_of_ne t c hs] at h
    exact Or.inl h

variable [DecidableEq κ]

/-- Nobody stands in the way of a claim iff the name is free or its owner has the same key. -/
lemma rival?_eq_none_iff {t : SymbolTable κ} {symbol : String} {c : SymbolOwner κ} :
    t.rival? symbol c = none ↔ ∀ k, t.key? symbol = some k → k = c.key := by
  rw [rival?, key?]
  cases t.owner? symbol with
  | none => simp
  | some o => simp

/-- Who stands in the way of a claim is the owner, and has another key. -/
lemma rival?_eq_some_iff {t : SymbolTable κ} {symbol : String} {c o : SymbolOwner κ} :
    t.rival? symbol c = some o ↔ t.owner? symbol = some o ∧ o.key ≠ c.key := by
  rw [rival?]
  cases t.owner? symbol with
  | none => simp
  | some p =>
    by_cases hp : p.key = c.key
    · simp only [hp, if_true, reduceCtorEq, Option.some.injEq, false_iff, not_and, not_not]
      rintro rfl
      exact hp
    · simp only [hp, if_false, Option.some.injEq]
      constructor
      · rintro rfl
        exact ⟨rfl, hp⟩
      · exact fun h => h.1

/-- After an unopposed claim the name belongs to the key of the claimant. -/
lemma key?_claim_self {t : SymbolTable κ} {symbol : String} {c : SymbolOwner κ}
    (h : t.rival? symbol c = none) : (t.claim symbol c).key? symbol = some c.key := by
  cases ho : t.owner? symbol with
  | none => rw [key?, owner?_claim_self ho, Option.map_some]
  | some o =>
    have hk : t.key? symbol = some o.key := by rw [key?, ho, Option.map_some]
    rw [key?_claim_of_eq_some hk, rival?_eq_none_iff.mp h o.key hk]

end Interop.Model.SymbolTable
