/-
# Paths as text

A path is read back from its text if none of its segments holds a dot.  A path whose native name
may be used in generated code has no such segment: the dot would stand in the name as well.
-/
import Interop.Model.Naming
import Mathlib.Tactic.Common

namespace Interop.Model

lemma mem_intercalate {α : Type} {sep l : List α} {c : α} (hc : c ∈ l) (ls : List (List α))
    (hl : l ∈ ls) : c ∈ sep.intercalate ls := by
  induction ls with
  | nil => cases hl
  | cons k ls ih =>
    cases ls with
    | nil =>
      rw [List.intercalate_singleton, ← List.mem_singleton.mp hl]
      exact hc
    | cons k' ls =>
      rw [List.intercalate_cons_cons]
      rcases List.mem_cons.mp hl with rfl | hl
      · exact List.mem_append_left _ (List.mem_append_left _ hc)
      · exact List.mem_append_right _ (ih hl)

lemma mem_or_of_mem_intercalate {α : Type} {sep : List α} {c : α} (ls : List (List α))
    (hc : c ∈ sep.intercalate ls) : c ∈ sep ∨ ∃ l ∈ ls, c ∈ l := by
  induction ls with
  | nil => cases hc
  | cons l ls ih =>
    cases ls with
    | nil =>
      rw [List.intercalate_singleton] at hc
      exact .inr ⟨l, List.mem_cons_self, hc⟩
    | cons l' ls =>
      rw [List.intercalate_cons_cons] at hc
      rcases List.mem_append.mp hc with hc | hc
      · rcases List.mem_append.mp hc with hc | hc
        · exact .inr ⟨l, List.mem_cons_self, hc⟩
        · exact .inl hc
      · refine (ih hc).imp_right ?_
        rintro ⟨k, hk, hck⟩
        exact ⟨k, List.mem_cons_of_mem _ hk, hck⟩

namespace TypePath

/-- No segment of a path holds a dot. -/
def DotFree (p : TypePath) : Prop := ∀ s ∈ p.segments, '.' ∉ s.toList

/-- A path without dots in its segments is read back from its text. -/
lemma ofDotted_dotted {p : TypePath} (h : p.DotFree) : ofDotted p.dotted = p := by
  have hsplit : p.dotted.toList.splitOn '.' = p.segments.map String.toList := by
    rw [dotted, String.toList_intercalate]
    refine List.splitOn_intercalate '.' ?_ (by simp [segments])
    intro l hl
    obtain ⟨s, hs, rfl⟩ := List.mem_map.mp hl
    exact h s hs
  have hsegments : (p.segments.map String.toList).map String.ofList = p.segments := by
    rw [List.map_map]
    exact (List.map_congr_left fun s _ => String.ofList_toList).trans (List.map_id _)
  rw [ofDotted, hsplit, hsegments, ofSegments_segments]

/-- Where no segment holds a dot, paths are the same exactly if they are as text. -/
lemma dotted_inj {p q : TypePath} (hp : p.DotFree) (hq : q.DotFree) :
    p.dotted = q.dotted ↔ p = q := by
  constructor
  · intro h
    rw [← ofDotted_dotted hp, h, ofDotted_dotted hq]
  · rintro rfl
    rfl

lemma segments_inj {p q : TypePath} : p.segments = q.segments ↔ p = q := by
  constructor
  · intro h
    rw [← ofSegments_segments p, h, ofSegments_segments]
  · rintro rfl
    rfl

/-- What stands in a segment stands in the native name. -/
lemma mem_symbol_of_mem_segment {p : TypePath} {s : String} (hs : s ∈ p.segments) {c : Char}
    (hc : c ∈ s.toList) : c ∈ p.symbol.toList := by
  rw [symbol, String.toList_intercalate]
  exact mem_intercalate hc _ (List.mem_map_of_mem hs)

end TypePath

/-- The characters of an identifier. -/
lemma exists_of_isIdentifier {name : String} (h : isIdentifier name = true) :
    ∃ c cs, name.toList = c :: cs ∧ Source.isWordStart c = true ∧
      cs.all Source.isWordChar = true := by
  rw [isIdentifier] at h
  split at h
  · cases h
  · rename_i c cs hname
    exact ⟨c, cs, hname, Bool.and_eq_true_iff.mp h⟩

lemma isWordChar_of_isWordStart {c : Char} (h : Source.isWordStart c = true) :
    Source.isWordChar c = true := by
  rcases Bool.or_eq_true_iff.mp h with h | h
  · simp [Source.isWordChar, Char.isAlphanum, h]
  · simp [Source.isWordChar, h]

lemma isWordChar_of_mem {name : String} (h : isIdentifier name = true) {c : Char}
    (hc : c ∈ name.toList) : Source.isWordChar c = true := by
  obtain ⟨d, ds, hname, hd, hds⟩ := exists_of_isIdentifier h
  rw [hname] at hc
  rcases List.mem_cons.mp hc with rfl | hc
  · exact isWordChar_of_isWordStart hd
  · exact List.all_eq_true.mp hds c hc

/-- An identifier has no dots. -/
lemma dot_notMem_of_isIdentifier {name : String} (h : isIdentifier name = true) :
    '.' ∉ name.toList := by
  intro hdot
  have hword := isWordChar_of_mem h hdot
  cases hword

/-- A name that may be used is an identifier. -/
lemma isIdentifier_of_nameFault? {name : String} (h : nameFault? name = none) :
    isIdentifier name = true := by
  by_contra hnot
  rw [nameFault?, if_pos (by simpa using hnot)] at h
  cases h

lemma TypePath.dotFree_of_nameFault? {p : TypePath} (h : nameFault? p.symbol = none) :
    p.DotFree := by
  intro s hs hdot
  have hname := mem_symbol_of_mem_segment hs hdot
  exact dot_notMem_of_isIdentifier (isIdentifier_of_nameFault? h) hname

end Interop.Model
