/-
# Types before prototypes

A header is read from its top to its end, so the types that a prototype names have to be declared
before it.  A bound model and every selection of one have all that is needed for this
(`BindingModel.Complete`): the enums and the classes that their functions mention.  Hence files are
generated for them under every name that a library can have, and in the header the types come first.

Main result: `types_declared_first`.
-/
import Interop.C.Library
import Interop.Proofs.C.Prototypes
import Interop.Proofs.Model.TypeClosure

namespace Interop

open Source Model

namespace Model

/-! ### Models that can stand alone -/

/-- A model has the types that its functions mention, each under the name made from its path. -/
structure BindingModel.Complete (m : BindingModel) : Prop where
  byClass : m.ByClass
  enumNames : ∀ e ∈ m.enums, e.nativeName = e.path.symbol ∧ isIdentifier e.nativeName = true
  classNames : ∀ c ∈ m.classes, c.nativeName = c.path.symbol ∧ isIdentifier c.nativeName = true
  params : ∀ f ∈ m.functions, ∀ p ∈ f.params, m.Passes p.type
  returns : ∀ f ∈ m.functions, f.returns = .void ∨ m.Passes f.returns
  receivers : ∀ f ∈ m.functions, f.takesHandle = true → m.PassesOne (.object f.owner)

lemma complete_ofAssembly (a : Assembly) : (BindingModel.ofAssembly a).Complete where
  byClass := byClass_ofAssembly a
  enumNames _ he := (nativeName_of_mem_enums he).imp_right isIdentifier_of_nameFault?
  classNames _ hc := (nativeName_of_mem_classes hc).imp_right isIdentifier_of_nameFault?
  params _ hf p hp := ((passes_of_mem_functions hf).1 p hp).1
  returns _ hf := (passes_of_mem_functions hf).2
  receivers f hf hhandle := by
    obtain ⟨c, hc, hstatic⟩ := class?_owner hf
    refine .object hc (Bool.eq_false_iff.mpr fun hcstatic => ?_)
    rw [NativeFunction.takesHandle, hstatic hcstatic] at hhandle
    cases hhandle

/-- A selection keeps what its functions mention. -/
lemma BindingModel.Complete.select {m : BindingModel} (h : m.Complete) (keep : TypePath → Bool) :
    (m.select keep).Complete where
  byClass := h.byClass.select keep
  enumNames e he := h.enumNames e (List.mem_filter.mp he).1
  classNames c hc := h.classNames c (List.mem_filter.mp hc).1
  params f hf p hp := (h.params f (List.mem_filter.mp hf).1 p hp).select hf
    (List.mem_append_left _ (List.mem_map_of_mem hp))
  returns f hf := (h.returns f (List.mem_filter.mp hf).1).imp_right fun hreturns =>
    hreturns.select hf (List.mem_append_right _ (List.mem_singleton_self _))
  receivers f hf hhandle := (h.receivers f (List.mem_filter.mp hf).1 hhandle).select
    fun _ hpath => selects_of_mentioned hf (Option.some.inj hpath ▸ List.mem_cons_self)

/-- A model, or what is selected of it. -/
def BindingModel.narrow (m : BindingModel) : Option (TypePath → Bool) → BindingModel
  | none => m
  | some keep => m.select keep

lemma complete_narrow (a : Assembly) (keep? : Option (TypePath → Bool)) :
    ((BindingModel.ofAssembly a).narrow keep?).Complete := by
  cases keep? with
  | none => exact complete_ofAssembly a
  | some keep => exact (complete_ofAssembly a).select keep

end Model

namespace C

/-! ### Declarations of types -/

/-- The types that the prototype of a function names: that of the receiver, if it takes one, those
of the parameters, and that of the result. -/
def namedTypes (f : NativeFunction) : List ManagedType :=
  (if f.takesHandle then [.object f.owner] else []) ++ f.types

/-- The C type for a managed type can be read behind some lines: it is one of C's own, or one of the
lines declares its name.  An enum is another name of its underlying type, a class a structure
without known members, and an array a structure around a pointer. -/
inductive Readable (m : BindingModel) (lines : List String) : ManagedType → Prop
  | void : Readable m lines .void
  | primitive (p : Primitive) : Readable m lines (.primitive p)
  | string : Readable m lines .string
  | enumType {path : TypePath} {e : BoundEnum} (h : m.enum? path = some e)
    (hline : s!"typedef {primitiveType e.underlying} {path.symbol};" ∈ lines) :
    Readable m lines (.enum path)
  | handleType {path : TypePath}
    (hline : s!"typedef struct {path.symbol} {path.symbol};" ∈ lines) :
    Readable m lines (.object path)
  | arrayType {element : ManagedType}
    (hline :
      s!"typedef struct {element.arraySymbol} \x7b M2nArray* array; \x7d {element.arraySymbol};" ∈
        lines) :
    Readable m lines (.array element)

/-! ### The two parts of a header -/

/-- The groups of a header that declare types. -/
def typeSections (m : BindingModel) : List Section :=
  let handles := (m.classes.filter (!·.isStatic)).map (·.nativeName)
  m.enums.map .enumType ++
    (if handles.isEmpty then [] else [.handleTypes handles]) ++
    if m.arrayElements.isEmpty then [] else [.arrayTypes m.arrayElements]

/-- The groups of a header that declare functions. -/
def functionSections (m : BindingModel) : List Section :=
  m.classes.filterMap fun c =>
    if (m.functionsOf c.path).isEmpty then none
    else some (.prototypes c.path (m.functionsOf c.path))

/-- The lines of a header up to the last declaration of a type. -/
def typeLines (o : Options) (m : BindingModel) : List String :=
  openingLines o ++ linesOf o.apiMacro (typeSections m)

/-- The lines of a header behind the declarations of types. -/
def functionLines (o : Options) (m : BindingModel) : List String :=
  linesOf o.apiMacro (functionSections m) ++ closeLinkage

lemma sections_eq (m : BindingModel) : sections m = typeSections m ++ functionSections m := rfl

lemma header_eq (o : Options) (m : BindingModel) :
    header o m = unlines (typeLines o m ++ functionLines o m) := by
  rw [header, typeLines, functionLines, openingLines, linesOf, linesOf, sections_eq]
  simp only [List.flatMap_append, List.append_assoc]
  rfl

lemma mem_linesOf {api line : String} {s : Section} {ss : List Section} (hs : s ∈ ss)
    (hline : line ∈ s.lines api) : line ∈ linesOf api ss :=
  List.mem_flatMap.mpr ⟨s, hs, List.mem_append_left _ hline⟩

/-! ### Prototypes come last -/

lemma endsWith_prototype (api : String) (f : NativeFunction) :
    endsWith (prototype api f ++ ";") ");" = true := by
  rw [endsWith_semicolon]
  exact endsWith_self _ ")"

/-- A prototype has a parenthesis more than the macro in front of it. -/
lemma prototype_ne {start : String} (hstart : '(' ∉ start.toList) (api : String)
    (f : NativeFunction) : start ++ api ≠ prototype api f ++ ";" := by
  intro h
  obtain ⟨last, hprototype⟩ := exists_prototype_eq api f
  have hcount := congrArg (fun s : String => s.toList.count '(') h
  simp only [hprototype, String.toList_append, List.count_append, List.count_eq_zero.mpr hstart]
    at hcount
  have hparenthesis : "(".toList.count '(' = 1 := rfl
  omega

lemma prototype_notMem_openingLines (o : Options) (f : NativeFunction) :
    prototype o.apiMacro f ++ ";" ∉ openingLines o := by
  have hfirst : ∀ support, ∀ line ∈ preamble ++ ["#pragma once", "", includeLine support, ""],
      endsWith line ");" = false := by
    decide +kernel
  have hlast : ∀ line ∈ ["#endif", ""] ++ openLinkage, endsWith line ");" = false := by
    decide +kernel
  have hlines : openingLines o =
      preamble ++ ["#pragma once", "", includeLine o.supportFiles, ""] ++
        [s!"#ifndef {o.apiMacro}", s!"#define {o.apiMacro}"] ++ (["#endif", ""] ++ openLinkage) :=
    rfl
  have hends := endsWith_prototype o.apiMacro f
  intro hmem
  rw [hlines] at hmem
  rcases List.mem_append.mp hmem with hmem | hmem
  · rcases List.mem_append.mp hmem with hmem | hmem
    · rw [hfirst _ _ hmem] at hends
      cases hends
    · -- what the user chose for the macro may end in any way
      rcases List.mem_cons.mp hmem with hifndef | hmem
      · exact prototype_ne (by decide) o.apiMacro f hifndef.symm
      · exact prototype_ne (by decide) o.apiMacro f (List.mem_singleton.mp hmem).symm
  · rw [hlast _ hmem] at hends
    cases hends

lemma functions_of_mem_typeSections {m : BindingModel} {s : Section} (hs : s ∈ typeSections m) :
    s.functions = [] := by
  rw [typeSections] at hs
  rcases List.mem_append.mp hs with hs | hs
  · rcases List.mem_append.mp hs with hs | hs
    · obtain ⟨e, _, rfl⟩ := List.mem_map.mp hs
      rfl
    · split at hs
      · cases hs
      · rw [List.mem_singleton.mp hs]
        rfl
  · split at hs
    · cases hs
    · rw [List.mem_singleton.mp hs]
      rfl

lemma readable_array {m : BindingModel} (o : Options) {e : ManagedType} (he : e ∈ m.arrayElements) :
    Readable m (typeLines o m) (.array e) := by
  refine .arrayType (List.mem_append_right _ (mem_linesOf (s := .arrayTypes m.arrayElements) ?_
    (List.mem_map_of_mem he)))
  refine List.mem_append_right _ ?_
  rw [if_neg fun hempty => List.ne_nil_of_mem he (List.isEmpty_iff.mp hempty)]
  exact List.mem_singleton_self _

section Complete

variable {m : BindingModel} (h : m.Complete)
include h

lemma prototype_notMem_typeLines (o : Options) (f : NativeFunction) :
    prototype o.apiMacro f ++ ";" ∉ typeLines o m := by
  intro hmem
  rcases List.mem_append.mp hmem with hmem | hmem
  · exact prototype_notMem_openingLines o f hmem
  · obtain ⟨s, hs, hmem⟩ := List.mem_flatMap.mp hmem
    have hends := endsWith_prototype o.apiMacro f
    rcases List.mem_append.mp hmem with hmem | hmem
    · have hnames : ∀ name ∈ s.typeNames, ∀ line, endsWith (line ++ name) ")" = false := by
        intro name hname
        rcases typeNames_sections (List.mem_append_left _ hs) hname with
          ⟨e, he, rfl⟩ | ⟨c, hc, rfl⟩ | ⟨e, rfl⟩
        · exact not_endsWith_identifier (h.enumNames e he).2
        · exact not_endsWith_identifier (h.classNames c hc).2
        · exact not_endsWith_arraySymbol e
      have hprototypes := prototypes_section o.apiMacro s hnames
      have hnone : s.functions = [] := functions_of_mem_typeSections hs
      rw [hnone, List.map_nil, List.filter_eq_nil_iff] at hprototypes
      exact hprototypes _ hmem hends
    · rw [List.mem_singleton.mp hmem] at hends
      cases hends

lemma prototype_mem_functionLines (o : Options) {f : NativeFunction} (hf : f ∈ m.functions) :
    prototype o.apiMacro f ++ ";" ∈ functionLines o m := by
  rw [← functions_sections h.byClass, sections_eq, List.flatMap_append] at hf
  rcases List.mem_append.mp hf with hf | hf
  · obtain ⟨s, hs, hf⟩ := List.mem_flatMap.mp hf
    rw [functions_of_mem_typeSections hs] at hf
    cases hf
  · obtain ⟨s, hs, hf⟩ := List.mem_flatMap.mp hf
    refine List.mem_append_left _ (mem_linesOf hs ?_)
    cases s with
    | prototypes owner functions =>
      exact List.mem_cons_of_mem _ (List.mem_map.mpr ⟨f, hf, rfl⟩)
    | enumType | handleTypes | arrayTypes => cases hf

lemma readable_of_passesOne (o : Options) {t : ManagedType} (ht : m.PassesOne t) :
    Readable m (typeLines o m) t := by
  cases ht with
  | primitive p => exact .primitive p
  | string => exact .string
  | @enum path e he =>
    obtain ⟨hmem, hpath⟩ := BindingModel.mem_of_enum? he
    have hline : s!"typedef {primitiveType e.underlying} {e.nativeName};" ∈
        (Section.enumType e).lines o.apiMacro := List.mem_cons_of_mem _ List.mem_cons_self
    rw [(h.enumNames e hmem).1, hpath] at hline
    refine .enumType he (List.mem_append_right _ (mem_linesOf ?_ hline))
    exact List.mem_append_left _ (List.mem_append_left _ (List.mem_map_of_mem hmem))
  | @object path c hc hstatic =>
    obtain ⟨hmem, hpath⟩ := BindingModel.mem_of_class? hc
    have hhandle : path.symbol ∈ (m.classes.filter (!·.isStatic)).map (·.nativeName) := by
      refine List.mem_map.mpr ⟨c, List.mem_filter.mpr ⟨hmem, by rw [hstatic]; rfl⟩, ?_⟩
      rw [(h.classNames c hmem).1, hpath]
    refine .handleType (List.mem_append_right _ (mem_linesOf (s := .handleTypes _) ?_
      (List.mem_map_of_mem hhandle)))
    refine List.mem_append_left _ (List.mem_append_right _ ?_)
    rw [if_neg fun hempty => List.ne_nil_of_mem hhandle (List.isEmpty_iff.mp hempty)]
    exact List.mem_singleton_self _

/-- The types that a prototype names can be read when it comes. -/
lemma readable_of_mem_namedTypes (o : Options) {f : NativeFunction} (hf : f ∈ m.functions)
    {t : ManagedType} (ht : t ∈ namedTypes f) : Readable m (typeLines o m) t := by
  have hpassed : m.Passes t → t ∈ f.types → Readable m (typeLines o m) t := by
    rintro (hone | helement) ht
    · exact readable_of_passesOne h o hone
    · refine readable_array o (BindingModel.mem_arrayElements.mpr ⟨f, hf, ?_⟩)
      exact List.mem_filterMap.mpr ⟨_, ht, rfl⟩
  rcases List.mem_append.mp ht with ht | ht
  · split at ht
    · rename_i hhandle
      rw [List.mem_singleton.mp ht]
      exact readable_of_passesOne h o (h.receivers f hf hhandle)
    · cases ht
  · rcases List.mem_append.mp ht with hparam | hresult
    · obtain ⟨p, hp, rfl⟩ := List.mem_map.mp hparam
      exact hpassed (h.params f hf p hp) ht
    · obtain rfl := List.mem_singleton.mp hresult
      rcases h.returns f hf with hvoid | hpasses
      · rw [hvoid]
        exact .void
      · exact hpassed hpasses ht

lemma exists_source (o : Options) : ∃ text, source o m = .ok text := by
  obtain ⟨ss, hss, _, _⟩ := stubs_ok fun f hf => exists_stub (h.params f hf) (h.returns f hf)
  rw [source, hss]
  exact ⟨_, rfl⟩

end Complete

/-- The lines of a header, divided where its prototypes begin: the types that these name are
declared before. -/
structure TypesFirst (o : Options) (m : BindingModel) (first last : List String) : Prop where
  header_eq : header o m = unlines (first ++ last)
  no_prototype : ∀ f, prototype o.apiMacro f ++ ";" ∉ first
  prototypes : ∀ f ∈ m.functions, prototype o.apiMacro f ++ ";" ∈ last
  readable : ∀ f ∈ m.functions, ∀ t ∈ namedTypes f, Readable m first t

/-- For a bound model, or for whatever types of one are selected, files are generated under every
name that a library can have; and in the header the enums, the handle types and the array types that
prototypes name are declared before the first prototype. -/
theorem types_declared_first (a : Assembly) (keep? : Option (TypePath → Bool)) (o : Options)
    (hname : isLibraryName o.libraryName = true) :
    (∃ text support, generate o ((BindingModel.ofAssembly a).narrow keep?) =
      .ok (⟨o.headerName, header o ((BindingModel.ofAssembly a).narrow keep?)⟩ ::
        ⟨o.sourceName, text⟩ :: support)) ∧
    ∃ first last, TypesFirst o ((BindingModel.ofAssembly a).narrow keep?) first last := by
  have h := complete_narrow a keep?
  refine ⟨?_, typeLines o _, functionLines o _, header_eq o _, prototype_notMem_typeLines h o,
    fun f hf => prototype_mem_functionLines h o hf, fun f hf t => readable_of_mem_namedTypes h o hf⟩
  obtain ⟨text, htext⟩ := exists_source h o
  refine ⟨text, if o.supportFiles then [⟨supportName, supportHeader⟩] else [], ?_⟩
  rw [generate, hname, htext]
  rfl

/-- A method that passes an enum, an array of its values and an object, of which all types are
selected that are not the enum: the enum is declared all the same. -/
theorem types_declared_first_enum :
    ∃ a f, Assembly.ofText ("public enum E \x7b X \x7d public class A \x7b " ++
        "public E[] f(E one, ref A other); \x7d") = .ok a ∧
      isLibraryName Options.default.libraryName = true ∧
      f ∈ ((BindingModel.ofAssembly a).narrow (some (·.name = "A"))).functions ∧
      .array (.enum ⟨[], "E"⟩) ∈ namedTypes f ∧
      ∃ first last, TypesFirst .default
        ((BindingModel.ofAssembly a).narrow (some (·.name = "A"))) first last := by
  have hrun : (Assembly.ofText ("public enum E \x7b X \x7d public class A \x7b " ++
      "public E[] f(E one, ref A other); \x7d")).toOption.any (fun a =>
        ((BindingModel.ofAssembly a).narrow (some (·.name = "A"))).functions.any fun f =>
          decide (.array (.enum ⟨[], "E"⟩) ∈ namedTypes f)) = true := by
    decide +kernel
  obtain ⟨a, ha, hfunctions⟩ := Assembly.exists_of_any hrun
  obtain ⟨f, hf, hnamed⟩ := List.any_eq_true.mp hfunctions
  have hlibrary : isLibraryName Options.default.libraryName = true := by decide
  exact ⟨a, f, ha, hlibrary, hf, of_decide_eq_true hnamed,
    (types_declared_first a _ .default hlibrary).2⟩

end C

end Interop
