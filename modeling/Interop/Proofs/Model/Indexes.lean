/-
# Indexes and lists agree

An index finds the last element that was given under a key.  In a bound model no key is given twice:
the functions have different symbols, the types have different paths, and different paths are
written differently.  So by its index exactly the element with a key is found, also in a selection
of the model.

The key of a path is its text.  A path with a dot in a segment has the text of another path, and
the index finds what has that one; for all other paths, which are those of declarations and those
that are read from a text, it makes no difference whether a look-up goes through the index or
through the list.

Main result: `indexes_agree`.
-/
import Mathlib.Data.List.Induction
import Interop.Model.Index
import Interop.Proofs.Model.Accounts
import Interop.Proofs.Model.Selections
import Interop.Proofs.Model.UsableNames

namespace Interop.Model

open Source

namespace Indexed

variable {α : Type} {key : α → String}

lemma get?_push (t : Indexed α) (k l : String) (x : α) :
    (t.push k x).get? l = if l = k then some x else t.get? l := by
  rw [get?, push, Table.get?_set]
  split
  · exact List.getElem?_concat_length
  · -- what has a place in the list before keeps it
    rw [get?]
    cases hplace : t.places.get? l with
    | none => rfl
    | some i => exact List.getElem?_append_left (t.place_lt l i hplace)

lemma ofList_concat (key : α → String) (xs : List α) (x : α) :
    ofList key (xs ++ [x]) = (ofList key xs).push (key x) x := List.foldl_append

/-- The index of a list finds the last element with a key. -/
lemma get?_ofList (xs : List α) (k : String) :
    (ofList key xs).get? k = xs.reverse.find? (fun x => key x = k) := by
  induction xs using List.reverseRec with
  | nil => rfl
  | append_singleton xs x ih =>
    rw [ofList_concat, get?_push, ih, List.reverse_concat, List.find?_cons]
    by_cases hk : k = key x
    · rw [if_pos hk, decide_eq_true hk.symm]
    · rw [if_neg hk, decide_eq_false (Ne.symm hk)]

lemma get?_ofList_eq_some_iff {xs : List α} (h : (xs.map key).Nodup) {k : String} {x : α} :
    (ofList key xs).get? k = some x ↔ x ∈ xs ∧ key x = k := by
  rw [get?_ofList, find?_eq_some_iff_of_nodup, List.mem_reverse]
  rwa [List.map_reverse, List.nodup_reverse]

/-- The index of a list without a repeated key finds what a search through the list does. -/
lemma get?_ofList_eq_find? {xs : List α} (h : (xs.map key).Nodup) (k : String) :
    (ofList key xs).get? k = xs.find? (fun x => key x = k) := by
  refine Option.ext fun x => ?_
  rw [get?_ofList_eq_some_iff h]
  exact (find?_eq_some_iff_of_nodup h).symm

/-! ### Paths and their texts -/

section

variable {pathOf : α → TypePath} {xs : List α} (hfree : ∀ x ∈ xs, (pathOf x).DotFree)
  (hnodup : (xs.map pathOf).Nodup)
include hfree hnodup

/-- Different paths are written differently. -/
lemma nodup_map_dotted : (xs.map fun x => (pathOf x).dotted).Nodup := by
  refine List.Nodup.map_on ?_ (List.Nodup.of_map _ hnodup)
  intro x hx y hy heq
  exact List.inj_on_of_nodup_map hnodup hx hy
    ((TypePath.dotted_inj (hfree x hx) (hfree y hy)).mp heq)

/-- What the index finds for a path has a path with the same text. -/
lemma get?_dotted_eq_some_iff {path : TypePath} {x : α} :
    (ofList (fun x => (pathOf x).dotted) xs).get? path.dotted = some x ↔
      x ∈ xs ∧ (pathOf x).dotted = path.dotted :=
  get?_ofList_eq_some_iff (nodup_map_dotted hfree hnodup)

variable {path : TypePath} (hpath : path.DotFree)
include hpath

/-- Where no segment of the path holds a dot, it has this path. -/
lemma get?_path_eq_some_iff {x : α} :
    (ofList (fun x => (pathOf x).dotted) xs).get? path.dotted = some x ↔
      x ∈ xs ∧ pathOf x = path := by
  rw [get?_dotted_eq_some_iff hfree hnodup]
  exact and_congr_right fun hx => TypePath.dotted_inj (hfree x hx) hpath

/-- A search through the list by the path itself finds the same. -/
lemma get?_path_eq_find? :
    (ofList (fun x => (pathOf x).dotted) xs).get? path.dotted =
      xs.find? (fun x => pathOf x = path) := by
  refine Option.ext fun x => ?_
  rw [get?_path_eq_some_iff hfree hnodup hpath]
  exact (find?_eq_some_iff_of_nodup hnodup).symm

end

end Indexed

/-! ### Models without a repeated key -/

namespace BindingModel

/-- No symbol stands for two functions and no path for two types, and paths are read back from their
texts. -/
structure Distinct (m : BindingModel) : Prop where
  symbols : (m.functions.map (·.symbol)).Nodup
  classes : (m.classes.map (·.path)).Nodup
  enums : (m.enums.map (·.path)).Nodup
  apart : ∀ c ∈ m.classes, ∀ e ∈ m.enums, c.path ≠ e.path
  classPaths : ∀ c ∈ m.classes, c.path.DotFree
  enumPaths : ∀ e ∈ m.enums, e.path.DotFree

namespace Distinct

variable {m : BindingModel}

/-- A selection repeats no key either. -/
lemma select (h : m.Distinct) (keep : TypePath → Bool) : (m.select keep).Distinct where
  symbols := h.symbols.sublist (List.filter_sublist.map _)
  classes := h.classes.sublist (List.filter_sublist.map _)
  enums := h.enums.sublist (List.filter_sublist.map _)
  apart c hc e he := h.apart c (List.mem_filter.mp hc).1 e (List.mem_filter.mp he).1
  classPaths c hc := h.classPaths c (List.mem_filter.mp hc).1
  enumPaths e he := h.enumPaths e (List.mem_filter.mp he).1

end Distinct

/-- A path is that of one declaration, which is of a class or of an enum. -/
lemma path_ne_of_mem {a : Assembly} {c : BoundClass} {e : BoundEnum}
    (hc : c ∈ (ofAssembly a).classes) (he : e ∈ (ofAssembly a).enums) : c.path ≠ e.path := by
  obtain ⟨share, h⟩ := exists_contributions a
  intro hpath
  have hclass : c.path ∈ (ofAssembly a).classes.map (·.path) := List.mem_map_of_mem hc
  rw [h.classes] at hclass
  rw [h.enums] at he
  obtain ⟨new, hnew, hcmem⟩ := List.mem_flatMap.mp hclass
  obtain ⟨other, hother, hemem⟩ := List.mem_flatMap.mp he
  have hclassGain := h.inClasses new hnew
  have henumGain := h.inEnums other hother
  generalize (share new).inClasses = inClasses at hclassGain hcmem
  generalize (share other).inEnums = inEnums at henumGain hemem
  cases hclassGain with
  | bound _ hbody =>
    cases henumGain with
    | bound _ hbody' hpath' =>
      have hsame : new.path = other.path := by
        rw [← List.mem_singleton.mp hcmem, hpath, List.mem_singleton.mp hemem, hpath']
      obtain rfl := List.inj_on_of_nodup_map (nodup_path_ofAssembly a) hnew hother hsame
      rw [hbody] at hbody'
      cases hbody'
    | hidden | other | leftOut => cases hemem
  | hidden | enum | valueType | leftOut => cases hcmem

lemma distinct_ofAssembly (a : Assembly) : (ofAssembly a).Distinct where
  symbols := nodup_symbols a
  classes := nodup_classes a
  enums := nodup_enums a
  apart _ hc _ he := path_ne_of_mem hc he
  classPaths _ hc := dotFree_of_mem_classes a hc
  enumPaths e he := by
    have hname := (nativeName_of_mem_enums he).2
    rw [(nativeName_of_mem_enums he).1] at hname
    exact TypePath.dotFree_of_nameFault? hname

/-- A model, and all that is selected of it one selection after the other, repeats no key. -/
lemma distinct_selected (a : Assembly) (keeps : List (TypePath → Bool)) :
    (keeps.foldl select (ofAssembly a)).Distinct :=
  List.foldlRecOn (motive := Distinct) keeps select (distinct_ofAssembly a)
    fun _ h keep _ => h.select keep

end BindingModel

/-- In a bound model, and in whatever is selected of it, the indexes find exactly the function with
a symbol and, for a path without dots in its segments, exactly the class and the enum with that
path; for any path they find what has a path with the same text.  The look-ups through the lists
find the same.  No symbol or path stands twice in its list, and no path is that of a class and of an
enum. -/
theorem indexes_agree (a : Assembly) (keeps : List (TypePath → Bool)) :
    let m := keeps.foldl BindingModel.select (.ofAssembly a)
    (∀ symbol f, m.indexedFunction? symbol = some f ↔ f ∈ m.functions ∧ f.symbol = symbol) ∧
    (∀ path : TypePath, path.DotFree →
      (∀ c, m.indexedClass? path = some c ↔ c ∈ m.classes ∧ c.path = path) ∧
      ∀ e, m.indexedEnum? path = some e ↔ e ∈ m.enums ∧ e.path = path) ∧
    (∀ path : TypePath,
      (∀ c, m.indexedClass? path = some c ↔ c ∈ m.classes ∧ c.path.dotted = path.dotted) ∧
      ∀ e, m.indexedEnum? path = some e ↔ e ∈ m.enums ∧ e.path.dotted = path.dotted) ∧
    (∀ symbol, m.indexedFunction? symbol = m.function? symbol) ∧
    (∀ path : TypePath, path.DotFree →
      m.indexedClass? path = m.class? path ∧ m.indexedEnum? path = m.enum? path) ∧
    (m.functions.map (·.symbol)).Nodup ∧ (m.classes.map (·.path)).Nodup ∧
    (m.enums.map (·.path)).Nodup ∧ ∀ c ∈ m.classes, ∀ e ∈ m.enums, c.path ≠ e.path := by
  intro m
  have h : m.Distinct := BindingModel.distinct_selected a keeps
  refine ⟨?_, ?_, ?_, ?_, ?_, h.symbols, h.classes, h.enums, h.apart⟩
  · exact fun symbol f => Indexed.get?_ofList_eq_some_iff h.symbols
  · intro path hpath
    exact ⟨fun c => Indexed.get?_path_eq_some_iff h.classPaths h.classes hpath,
      fun e => Indexed.get?_path_eq_some_iff h.enumPaths h.enums hpath⟩
  · intro path
    exact ⟨fun c => Indexed.get?_dotted_eq_some_iff h.classPaths h.classes,
      fun e => Indexed.get?_dotted_eq_some_iff h.enumPaths h.enums⟩
  · exact fun symbol => Indexed.get?_ofList_eq_find? h.symbols symbol
  · intro path hpath
    exact ⟨Indexed.get?_path_eq_find? h.classPaths h.classes hpath,
      Indexed.get?_path_eq_find? h.enumPaths h.enums hpath⟩

/-- The path without a scope whose name is `N.A` is not that of the class `A` in the namespace `N`,
but it has its text, and the index finds the class for it. -/
theorem indexedClass?_of_dot :
    ∃ a c, Assembly.ofText "namespace N { public class A { } }" = .ok a ∧
      (BindingModel.ofAssembly a).indexedClass? ⟨[], "N.A"⟩ = some c ∧ c.path ≠ ⟨[], "N.A"⟩ := by
  have hrun : (Assembly.ofText "namespace N { public class A { } }").toOption.any (fun a =>
      ((BindingModel.ofAssembly a).indexedClass? ⟨[], "N.A"⟩).any fun c =>
        decide (c.path = ⟨["N"], "A"⟩)) = true := by
    decide +kernel
  obtain ⟨a, ha, hclass⟩ := Assembly.exists_of_any hrun
  obtain ⟨c, hc, hpath⟩ := (Option.any_eq_true ..).mp hclass
  refine ⟨a, c, ha, hc, ?_⟩
  rw [of_decide_eq_true hpath]
  decide

end Interop.Model
