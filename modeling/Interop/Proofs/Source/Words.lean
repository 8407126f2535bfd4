/-
# What words stand for

A reader looks words up, in tables or one after another; the grammar says what they mean.  Here the
two are compared: the names of built-in types, the words that may stand before a declaration, and
the visibility that they give it.
-/
import Interop.Proofs.Source.Grammar
import Interop.Source.Parser

namespace Interop.Source

section Types

lemma TypeExpr.ofName_string {name : DottedName} (h : name.segments = ["string"]) :
    ofName name = .string := by
  rw [ofName, h]
  rfl

lemma TypeExpr.ofName_primitive {name : DottedName} {p : Primitive}
    (h : name.segments = [p.keyword]) : ofName name = .primitive p := by
  have hne : p.keyword ≠ "string" := by cases p <;> decide
  rw [ofName, h]
  simp only [hne, if_false, Primitive.ofKeyword?_keyword]

lemma TypeExpr.ofName_declared {name : DottedName} (h : name.IsDeclared) :
    ofName name = .named name := by
  obtain ⟨hstring, hprimitive⟩ := h
  unfold ofName
  split
  · rename_i word hword
    rw [if_neg (by rintro rfl; exact hstring hword)]
    split
    · rename_i p hp
      have hkeyword : p.keyword = word := by simpa using List.find?_some hp
      exact absurd (hkeyword ▸ hword) (hprimitive p)
    · rfl
  · rfl

/-- A name is that of a built-in type or of a declared one. -/
lemma DottedName.builtIn_or_declared (name : DottedName) :
    name.segments = ["string"] ∨ (∃ p : Primitive, name.segments = [p.keyword]) ∨
      name.IsDeclared := by
  by_cases hstring : name.segments = ["string"]
  · exact .inl hstring
  · by_cases hprimitive : ∃ p : Primitive, name.segments = [p.keyword]
    · exact .inr (.inl hprimitive)
    · exact .inr (.inr ⟨hstring, fun p hp => hprimitive ⟨p, hp⟩⟩)

end Types

section Modifiers

lemma Keyword.isModifier_iff (k : Keyword) : k.isModifier = true ↔ k ∈ modifiers := by
  cases k <;> decide

@[simp] lemma Visibility.ofKeyword?_keyword (v : Visibility) : ofKeyword? v.keyword = some v := by
  cases v <;> rfl

lemma Visibility.keyword_eq_of_ofKeyword? {k : Keyword} {v : Visibility}
    (h : ofKeyword? k = some v) : v.keyword = k := by
  cases k <;> cases h <;> rfl

/-- Among modifiers without the word for a visibility none is found. -/
lemma Visibility.findSome?_eq_none_iff {ks : List Keyword} :
    ks.findSome? ofKeyword? = none ↔ ∀ v : Visibility, v.keyword ∉ ks := by
  rw [List.findSome?_eq_none_iff]
  constructor
  · intro h v hv
    have hnone := h v.keyword hv
    rw [ofKeyword?_keyword] at hnone
    cases hnone
  · intro h k hk
    cases hv : ofKeyword? k with
    | none => rfl
    | some v => exact absurd hk (keyword_eq_of_ofKeyword? hv ▸ h v)

/-- The visibility that is looked up is the one that the modifiers give. -/
lemma Visibility.given_iff {default v : Visibility} {ks : List Keyword} :
    Given default ks v ↔ (ofModifiers? ks).getD default = v := by
  constructor
  · rintro (hmem | ⟨hearlier, hnonpublic⟩ | hunnamed)
    · rw [ofModifiers?, if_pos (by simpa using hmem), Option.getD_some]
    · rw [ofModifiers?, if_neg (by simpa using hnonpublic), List.findSome?_append,
        findSome?_eq_none_iff.mpr hearlier, List.findSome?_cons, ofKeyword?_keyword]
      rfl
    · rw [ofModifiers?, if_neg (by simpa [keyword] using hunnamed .publicAccess),
        findSome?_eq_none_iff.mpr hunnamed, Option.getD_none]
  · rintro rfl
    by_cases hmem : .publicKw ∈ ks
    · rw [ofModifiers?, if_pos (by simpa using hmem)]
      exact .anyPublic hmem
    · rw [ofModifiers?, if_neg (by simpa using hmem)]
      cases hfirst : ks.findSome? ofKeyword? with
      | none => exact .unnamed (findSome?_eq_none_iff.mp hfirst)
      | some w =>
        obtain ⟨before, k, after, rfl, hk, hbefore⟩ := List.findSome?_eq_some_iff.mp hfirst
        cases keyword_eq_of_ofKeyword? hk
        refine .first (findSome?_eq_none_iff.mp ?_) hmem
        exact List.findSome?_eq_none_iff.mpr hbefore

end Modifiers

end Interop.Source
