/-
# Which native names may be used

The names of types, enum items and functions are checked before they are given out.  Those of array
types are not: they are what the element makes them, and that is a name that may be used unless the
element is of a type whose name begins with an underscore.  Then the array type's begins with two,
as do the names that are kept for generated functions (`usable_names`).
-/
import Interop.Proofs.Model.Owners

namespace Interop.Model

open Source

/-! ### Names of array types -/

/-- No reserved word ends like the name of an array type. -/
lemma array_notSuffix_keyword :
    ∀ word ∈ cKeywords ++ cppKeywords, ¬ "Array".toList <:+ word.toList := by
  decide +kernel

lemma isIdentifier_arrayName {stem : String} (h : isIdentifier stem = true) :
    isIdentifier ("_" ++ stem ++ "Array") = true := by
  have hname : ("_" ++ stem ++ "Array").toList = '_' :: (stem.toList ++ "Array".toList) := by simp
  have hstem : stem.toList.all isWordChar = true :=
    List.all_eq_true.mpr fun _ hc => isWordChar_of_mem h hc
  simp only [isIdentifier, hname, List.all_append, hstem]
  decide

/-- The name of an array type is not checked; this is what a check would find. -/
lemma nameFault?_arrayName {stem : String} (h : isIdentifier stem = true) :
    nameFault? ("_" ++ stem ++ "Array") =
      if beginsWith stem "_" then some .reservedForLocals else none := by
  have hkeyword : "_" ++ stem ++ "Array" ∉ cKeywords ++ cppKeywords := by
    intro hmem
    refine array_notSuffix_keyword _ hmem ?_
    rw [String.toList_append]
    exact List.suffix_append _ _
  obtain ⟨hc, hcpp⟩ := not_or.mp (mt List.mem_append.mpr hkeyword)
  have hlocals : beginsWith ("_" ++ stem ++ "Array") "__" = beginsWith stem "_" := by
    -- the second character is the first of the stem
    obtain ⟨c, cs, hstem, _⟩ := exists_of_isIdentifier h
    simp [beginsWith, List.isPrefixOf, hstem]
  have hruntime : ["m2n_", "M2n", "M2N_"].any (beginsWith ("_" ++ stem ++ "Array")) = false := by
    simp [beginsWith, List.isPrefixOf]
  simp [nameFault?, isIdentifier_arrayName h, hc, hcpp, hlocals, hruntime]

/-! ### The names of a model -/

section

variable {a : Assembly}

/-- The name of an enum is made from its path, and may be used. -/
lemma nativeName_of_mem_enums {e : BoundEnum} (he : e ∈ (BindingModel.ofAssembly a).enums) :
    e.nativeName = e.path.symbol ∧ nameFault? e.nativeName = none := by
  have howns := (recorded_ofAssembly a).enums e he (e.nativeName, .enumType e.path)
    List.mem_cons_self
  have hfits := (Draft.accounted_ofAssembly a howns).fits
  exact ⟨hfits.named _ rfl, hfits.usable.resolve_right nofun⟩

/-- The name of a class is made from its path, and may be used. -/
lemma nativeName_of_mem_classes {c : BoundClass} (hc : c ∈ (BindingModel.ofAssembly a).classes) :
    c.nativeName = c.path.symbol ∧ nameFault? c.nativeName = none := by
  have hfits := (Draft.accounted_ofAssembly a ((recorded_ofAssembly a).classes c hc)).fits
  exact ⟨hfits.named _ rfl, hfits.usable.resolve_right nofun⟩

lemma nameFault?_item {e : BoundEnum} (he : e ∈ (BindingModel.ofAssembly a).enums)
    {i : BoundEnumItem} (hi : i ∈ e.items) : nameFault? i.symbol = none := by
  have howns := (recorded_ofAssembly a).enums e he (i.symbol, .enumItem e.path i.name)
    (List.mem_cons_of_mem _ (List.mem_map.mpr ⟨i, hi, rfl⟩))
  exact (Draft.accounted_ofAssembly a howns).fits.usable.resolve_right nofun

lemma nameFault?_symbol {f : NativeFunction} (hf : f ∈ (BindingModel.ofAssembly a).functions) :
    nameFault? f.symbol = none :=
  (Draft.accounted_ofAssembly a ((recorded_ofAssembly a).functions f hf)).fits.usable.resolve_right
    nofun

/-- The name of a type that a model passes in arrays is an identifier, and an underscore at its
beginning makes the name of the array type one that is reserved. -/
lemma nameFault?_arraySymbol {e : ManagedType} (h : (BindingModel.ofAssembly a).PassesOne e) :
    nameFault? e.arraySymbol =
      if e.namedPath?.any (beginsWith ·.symbol "_") then some .reservedForLocals else none := by
  cases h with
  | primitive p => cases p <;> decide +kernel
  | string => decide +kernel
  | enum he =>
    obtain ⟨hmem, rfl⟩ := BindingModel.mem_of_enum? he
    obtain ⟨hname, hfault⟩ := nativeName_of_mem_enums hmem
    exact nameFault?_arrayName (isIdentifier_of_nameFault? (hname ▸ hfault))
  | object hc _ =>
    obtain ⟨hmem, rfl⟩ := BindingModel.mem_of_class? hc
    obtain ⟨hname, hfault⟩ := nativeName_of_mem_classes hmem
    exact nameFault?_arrayName (isIdentifier_of_nameFault? (hname ▸ hfault))

/-- What a model passes in arrays it passes singly as well. -/
lemma passesOne_of_mem_arrayElements {e : ManagedType}
    (he : e ∈ (BindingModel.ofAssembly a).arrayElements) :
    (BindingModel.ofAssembly a).PassesOne e := by
  obtain ⟨f, hf, hmem⟩ := BindingModel.mem_arrayElements.mp he
  obtain ⟨t, ht, helement⟩ := List.mem_filterMap.mp hmem
  obtain ⟨hparams, hreturns⟩ := passes_of_mem_functions hf
  have hpasses : (BindingModel.ofAssembly a).Passes t := by
    rcases List.mem_append.mp ht with ht | ht
    · obtain ⟨p, hp, rfl⟩ := List.mem_map.mp ht
      exact (hparams p hp).1
    · obtain rfl := List.mem_singleton.mp ht
      refine hreturns.resolve_left ?_
      intro hvoid
      rw [hvoid] at helement
      cases helement
  cases hpasses with
  | one h =>
    cases h with
    | primitive | string | enum | object => cases helement
  | array h =>
    obtain rfl := Option.some.inj helement
    exact h

end

/-- All names of a model may be used in generated code, but for those of array types whose elements
are of a type with an underscore at the beginning of its name. -/
theorem usable_names (a : Assembly) :
    (∀ e ∈ (BindingModel.ofAssembly a).enums, nameFault? e.nativeName = none ∧
      ∀ i ∈ e.items, nameFault? i.symbol = none) ∧
    (∀ c ∈ (BindingModel.ofAssembly a).classes, nameFault? c.nativeName = none) ∧
    (∀ f ∈ (BindingModel.ofAssembly a).functions, nameFault? f.symbol = none) ∧
    ∀ e ∈ (BindingModel.ofAssembly a).arrayElements, nameFault? e.arraySymbol =
      if e.namedPath?.any (beginsWith ·.symbol "_") then some .reservedForLocals else none := by
  refine ⟨?_, ?_, fun f hf => nameFault?_symbol hf, ?_⟩
  · exact fun e he => ⟨(nativeName_of_mem_enums he).2, fun i hi => nameFault?_item he hi⟩
  · exact fun c hc => (nativeName_of_mem_classes hc).2
  · exact fun e he => nameFault?_arraySymbol (passesOne_of_mem_arrayElements he)

/-- An underscore elsewhere in the name of the element does no harm. -/
theorem usable_names_enum_array :
    ∃ a e, Assembly.ofText ("namespace Shapes \x7b public enum Kind_ \x7b Round \x7d " ++
        "public class Box \x7b public Kind_[] kinds(); \x7d \x7d") = .ok a ∧
      e ∈ (BindingModel.ofAssembly a).arrayElements ∧ nameFault? e.arraySymbol = none := by
  have hrun : (Assembly.ofText ("namespace Shapes \x7b public enum Kind_ \x7b Round \x7d " ++
      "public class Box \x7b public Kind_[] kinds(); \x7d \x7d")).toOption.any (fun a =>
        decide (.enum ⟨["Shapes"], "Kind_"⟩ ∈ (BindingModel.ofAssembly a).arrayElements)) =
          true := by
    decide +kernel
  obtain ⟨a, ha, hmem⟩ := Assembly.exists_of_any hrun
  have he := of_decide_eq_true hmem
  obtain ⟨_, _, _, harrays⟩ := usable_names a
  exact ⟨a, _, ha, he, (harrays _ he).trans (if_neg (by decide +kernel))⟩

/-- An array type gets a name that is reserved, and no error is reported. -/
theorem array_name_reserved :
    ∃ a e, Assembly.ofText ("public class _Foo \x7b \x7d " ++
        "public class T \x7b public void f(_Foo[] x); \x7d") = .ok a ∧
      e ∈ (BindingModel.ofAssembly a).arrayElements ∧
      nameFault? e.arraySymbol = some .reservedForLocals ∧
      (BindingModel.ofAssembly a).errors = [] := by
  have hrun : (Assembly.ofText ("public class _Foo \x7b \x7d " ++
      "public class T \x7b public void f(_Foo[] x); \x7d")).toOption.any (fun a =>
        ((BindingModel.ofAssembly a).arrayElements.any fun e =>
          nameFault? e.arraySymbol = some .reservedForLocals) &&
        (BindingModel.ofAssembly a).errors.isEmpty) = true := by
    decide +kernel
  obtain ⟨a, ha, hmodel⟩ := Assembly.exists_of_any hrun
  obtain ⟨hnames, herrors⟩ := Bool.and_eq_true_iff.mp hmodel
  obtain ⟨e, he, hfault⟩ := List.any_eq_true.mp hnames
  exact ⟨a, e, ha, he, of_decide_eq_true hfault, List.isEmpty_iff.mp herrors⟩

end Interop.Model
