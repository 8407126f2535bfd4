/-
# The class of an object

An object keeps its class as text.  The texts are those of the paths without dots in their segments,
one each: such a path is read back from its text, empty segments included, and every text is that of
the path it is read as.  The types of a bound model have such paths, so an object of one of its
classes is of that class and no other.

Main result: `class_read_back`.
-/
import Interop.Managed.Value
import Interop.Proofs.Model.Indexes

namespace Interop

namespace Model

/-- No piece between separators holds one. -/
lemma notMem_of_mem_splitOn {α : Type} [BEq α] [LawfulBEq α] {sep : α} {xs l : List α}
    (h : l ∈ xs.splitOn sep) : sep ∉ l := by
  induction xs generalizing l with
  | nil =>
    rw [List.splitOn_nil] at h
    rw [List.mem_singleton.mp h]
    exact List.not_mem_nil
  | cons x xs ih =>
    rw [List.splitOn_cons_eq_if_modifyHead] at h
    split at h
    · rcases List.mem_cons.mp h with rfl | h
      · exact List.not_mem_nil
      · exact ih h
    · rename_i hx
      -- the element stands before the first piece of the rest
      obtain ⟨first, rest, hpieces⟩ := List.exists_cons_of_ne_nil (List.splitOn_ne_nil sep xs)
      rw [hpieces] at h ih
      rcases List.mem_cons.mp h with rfl | h
      · rw [List.mem_cons, not_or]
        exact ⟨fun heq => hx (beq_iff_eq.mpr heq.symm), ih List.mem_cons_self⟩
      · exact ih (List.mem_cons_of_mem _ h)

namespace TypePath

instance (p : TypePath) : Decidable p.DotFree :=
  inferInstanceAs (Decidable (∀ s ∈ p.segments, '.' ∉ s.toList))

/-- A text is read as the pieces between its dots. -/
lemma segments_ofDotted (text : String) :
    (ofDotted text).segments = (text.toList.splitOn '.').map String.ofList := by
  have hne : (text.toList.splitOn '.').map String.ofList ≠ [] := by
    simp [List.splitOn_ne_nil]
  rw [ofDotted, ofSegments, segments, List.getLastD_eq_getLast?,
    List.getLast?_eq_some_getLast hne, Option.getD_some, List.dropLast_append_getLast hne]

/-- What a text is read as is written as that text. -/
lemma dotted_ofDotted (text : String) : (ofDotted text).dotted = text := by
  refine String.toList_inj.mp ?_
  rw [dotted, String.toList_intercalate, segments_ofDotted, List.map_map]
  have hchars : String.toList ∘ String.ofList = id := funext fun _ => String.toList_ofList
  rw [hchars, List.map_id]
  exact List.intercalate_splitOn '.'

/-- What is read has no dots in its segments. -/
lemma dotFree_ofDotted (text : String) : (ofDotted text).DotFree := by
  intro s hs
  rw [segments_ofDotted] at hs
  obtain ⟨l, hl, rfl⟩ := List.mem_map.mp hs
  rw [String.toList_ofList]
  exact notMem_of_mem_splitOn hl

lemma ofDotted_dotted_eq_self_iff {p : TypePath} : ofDotted p.dotted = p ↔ p.DotFree := by
  constructor
  · intro h
    rw [← h]
    exact dotFree_ofDotted _
  · exact ofDotted_dotted

end TypePath

/-- The paths of all types in a model. -/
def BindingModel.typePaths (m : BindingModel) : List TypePath :=
  m.classes.map (·.path) ++ m.enums.map (·.path)

lemma BindingModel.Distinct.dotFree {m : BindingModel} (h : m.Distinct) {path : TypePath}
    (hpath : path ∈ m.typePaths) : path.DotFree := by
  rcases List.mem_append.mp hpath with hpath | hpath
  · obtain ⟨c, hc, rfl⟩ := List.mem_map.mp hpath
    exact h.classPaths c hc
  · obtain ⟨e, he, rfl⟩ := List.mem_map.mp hpath
    exact h.enumPaths e he

end Model

namespace Managed

open Model

/-- A path is read back from its text exactly if none of its segments holds a dot, and every text is
that of the path it is read as.  Hence an object made for a class of a bound model, or of a
selection of it, is of that class, and different types of the model are written differently. -/
theorem class_read_back (a : Source.Assembly) (keeps : List (TypePath → Bool)) :
    let m := keeps.foldl BindingModel.select (.ofAssembly a)
    (∀ path : TypePath, TypePath.ofDotted path.dotted = path ↔ path.DotFree) ∧
    (∀ text, (TypePath.ofDotted text).dotted = text) ∧
    (∀ c ∈ m.classes, ∀ heap : Heap, (heap.newObject c.path).1.type = c.path) ∧
    (∀ p ∈ m.typePaths, ∀ q ∈ m.typePaths, p.dotted = q.dotted ↔ p = q) := by
  intro m
  have hm : m.Distinct := BindingModel.distinct_selected a keeps
  refine ⟨fun _ => TypePath.ofDotted_dotted_eq_self_iff, TypePath.dotted_ofDotted, ?_, ?_⟩
  · exact fun c hc heap => TypePath.ofDotted_dotted (hm.classPaths c hc)
  · exact fun p hp q hq => TypePath.dotted_inj (hm.dotFree hp) (hm.dotFree hq)

/-- A class in a namespace beside an enum outside of it.  Segments may be empty, but a dot in a
segment is taken for one between segments. -/
theorem class_read_back_nested :
    ∃ a c e, Source.Assembly.ofText
        "namespace N \x7b public class A \x7b \x7d \x7d public enum N_A_ \x7b X \x7d" = .ok a ∧
      c ∈ (BindingModel.ofAssembly a).classes ∧ e ∈ (BindingModel.ofAssembly a).enums ∧
      c.path = ⟨["N"], "A"⟩ ∧ e.path = ⟨[], "N_A_"⟩ ∧
      (∀ heap : Heap, (heap.newObject c.path).1.type = ⟨["N"], "A"⟩) ∧
      c.path.dotted ≠ e.path.dotted ∧
      TypePath.ofDotted (TypePath.dotted ⟨["", "N"], ""⟩) = ⟨["", "N"], ""⟩ ∧
      TypePath.ofDotted (TypePath.dotted ⟨[], "N.A"⟩) ≠ ⟨[], "N.A"⟩ := by
  have hrun : (Source.Assembly.ofText
      "namespace N \x7b public class A \x7b \x7d \x7d public enum N_A_ \x7b X \x7d"
      ).toOption.any (fun a => (BindingModel.ofAssembly a).classes.any (fun c =>
        (BindingModel.ofAssembly a).enums.any fun e =>
          decide (c.path = ⟨["N"], "A"⟩ ∧ e.path = ⟨[], "N_A_"⟩))) = true := by
    decide +kernel
  obtain ⟨a, ha, hclasses⟩ := Source.Assembly.exists_of_any hrun
  obtain ⟨c, hc, henums⟩ := List.any_eq_true.mp hclasses
  obtain ⟨e, he, hpaths⟩ := List.any_eq_true.mp henums
  obtain ⟨hcpath, hepath⟩ := of_decide_eq_true hpaths
  obtain ⟨hread, -, hobject, hapart⟩ := class_read_back a []
  have hcmem : c.path ∈ (BindingModel.ofAssembly a).typePaths :=
    List.mem_append_left _ (List.mem_map_of_mem hc)
  have hemem : e.path ∈ (BindingModel.ofAssembly a).typePaths :=
    List.mem_append_right _ (List.mem_map_of_mem he)
  refine ⟨a, c, e, ha, hc, he, hcpath, hepath, ?_, ?_, ?_, ?_⟩
  · exact fun heap => (hobject c hc heap).trans hcpath
  · rw [ne_eq, hapart _ hcmem _ hemem, hcpath, hepath]
    decide
  · exact (hread _).mpr (by decide)
  · rw [ne_eq, hread]
    decide

end Managed

end Interop
