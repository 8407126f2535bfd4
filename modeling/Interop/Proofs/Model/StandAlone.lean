/-
# Selections stand alone

The functions of a selection are those whose owners are asked for.  Its classes and enums are those
that are asked for and those that its functions mention, and nothing else; all is in the order of
the model.  So what a function of a selection mentions is declared in the selection, and no more is
needed to use it: a second selection that asks for the same types, or for more, changes nothing.

Main result: `select_standsAlone`.
-/
import Interop.Proofs.Model.Selections
import Interop.Proofs.Model.TypeClosure

namespace Interop.Model

open Source

/-! ### What functions mention -/

/-- The path of an enum or a class stands in a type, also as an element of arrays. -/
def ManagedType.Names (t : ManagedType) (path : TypePath) : Prop :=
  (ManagedType.enum path).Within t ∨ (ManagedType.object path).Within t

lemma ManagedType.names_iff (t : ManagedType) (path : TypePath) :
    t.Names path ↔ t.namedPath? = some path := by
  constructor
  · rintro (h | h) <;> induction h with
    | self => rfl
    | element _ ih => exact ih
  · induction t with
    | void | primitive | string => exact fun h => by cases h
    | enum =>
      rintro ⟨⟩
      exact Or.inl .self
    | object =>
      rintro ⟨⟩
      exact Or.inr .self
    | array _ ih => exact fun h => (ih h).imp .element .element

/-- A function mentions its owner and the types that are named where its parameters and its
result are. -/
inductive NativeFunction.Mentions (f : NativeFunction) : TypePath → Prop
  | owner : f.Mentions f.owner
  | param {p : BoundParam} {path : TypePath} (hp : p ∈ f.params) (h : p.type.Names path) :
    f.Mentions path
  | returns {path : TypePath} (h : f.returns.Names path) : f.Mentions path

lemma NativeFunction.mentions_iff (f : NativeFunction) (path : TypePath) :
    f.Mentions path ↔ path ∈ f.mentioned := by
  constructor
  · rintro (_ | ⟨hp, h⟩ | h)
    · exact List.mem_cons_self
    · exact List.mem_cons_of_mem _ (List.mem_filterMap.mpr
        ⟨_, List.mem_append_left _ (List.mem_map_of_mem hp), (ManagedType.names_iff _ _).mp h⟩)
    · exact List.mem_cons_of_mem _ (List.mem_filterMap.mpr
        ⟨_, List.mem_append_right _ (List.mem_singleton_self _), (ManagedType.names_iff _ _).mp h⟩)
  · intro h
    rcases List.mem_cons.mp h with rfl | h
    · exact .owner
    · obtain ⟨t, ht, hnamed⟩ := List.mem_filterMap.mp h
      have hnames := (ManagedType.names_iff t path).mpr hnamed
      rcases List.mem_append.mp ht with ht | ht
      · obtain ⟨p, hp, rfl⟩ := List.mem_map.mp ht
        exact .param hp hnames
      · obtain rfl := List.mem_singleton.mp ht
        exact .returns hnames

/-- The owner of a function and the types that it mentions are declared in a model, enums as enums
and objects as classes. -/
structure NativeFunction.DeclaredIn (m : BindingModel) (f : NativeFunction) : Prop where
  owner : ∃ c ∈ m.classes, c.path = f.owner
  enums : ∀ t ∈ f.types, ∀ path, (ManagedType.enum path).Within t → ∃ e ∈ m.enums, e.path = path
  classes : ∀ t ∈ f.types, ∀ path, (ManagedType.object path).Within t →
    ∃ c ∈ m.classes, c.path = path

lemma declaredIn_of_mem_functions {a : Assembly} {f : NativeFunction}
    (hf : f ∈ (BindingModel.ofAssembly a).functions) :
    f.DeclaredIn (BindingModel.ofAssembly a) := by
  obtain ⟨c, hc, -⟩ := class?_owner hf
  refine ⟨⟨c, BindingModel.mem_of_class? hc⟩, ?_, ?_⟩
  · intro t ht path hpath
    obtain ⟨e, he⟩ := ((passes_of_within_types hf ht hpath).resolve_left (by simp)).exists_enum
    exact ⟨e, BindingModel.mem_of_enum? he⟩
  · intro t ht path hpath
    obtain ⟨c, hc, -⟩ :=
      ((passes_of_within_types hf ht hpath).resolve_left (by simp)).exists_class
    exact ⟨c, BindingModel.mem_of_class? hc⟩

/-! ### Selections -/

/-- What `s` takes over of a model when the types that `keep` accepts are asked for. -/
structure BindingModel.IsSelection (m : BindingModel) (keep : TypePath → Bool)
    (s : BindingModel) : Prop where
  functions : s.functions = m.functions.filter fun f => keep f.owner
  classes : s.classes.Sublist m.classes
  mem_classes : ∀ c ∈ m.classes,
    c ∈ s.classes ↔ keep c.path = true ∨ ∃ f ∈ s.functions, f.Mentions c.path
  enums : s.enums.Sublist m.enums
  mem_enums : ∀ e ∈ m.enums,
    e ∈ s.enums ↔ keep e.path = true ∨ ∃ f ∈ s.functions, f.Mentions e.path

namespace BindingModel

variable (m : BindingModel) (keep : TypePath → Bool)

lemma selects_iff (path : TypePath) :
    m.selects keep path = true ↔
      keep path = true ∨ ∃ f ∈ (m.select keep).functions, f.Mentions path := by
  rw [selects, Bool.or_eq_true_iff, List.contains_iff_mem, List.mem_flatMap]
  simp only [NativeFunction.mentions_iff]

lemma isSelection_select : m.IsSelection keep (m.select keep) where
  functions := rfl
  classes := List.filter_sublist
  mem_classes := fun c hc => by
    rw [classes_select, List.mem_filter, and_iff_right hc, selects_iff]
  enums := List.filter_sublist
  mem_enums := fun e he => by
    rw [enums_select, List.mem_filter, and_iff_right he, selects_iff]

variable {m keep}

lemma exists_class_select {path : TypePath} (h : ∃ c ∈ m.classes, c.path = path)
    (hselects : m.selects keep path = true) : ∃ c ∈ (m.select keep).classes, c.path = path := by
  obtain ⟨c, hc, rfl⟩ := h
  exact ⟨c, List.mem_filter.mpr ⟨hc, hselects⟩, rfl⟩

lemma exists_enum_select {path : TypePath} (h : ∃ e ∈ m.enums, e.path = path)
    (hselects : m.selects keep path = true) : ∃ e ∈ (m.select keep).enums, e.path = path := by
  obtain ⟨e, he, rfl⟩ := h
  exact ⟨e, List.mem_filter.mpr ⟨he, hselects⟩, rfl⟩

/-- A selection keeps the declarations of all that its functions mention. -/
lemma declaredIn_select {f : NativeFunction} (h : f.DeclaredIn m)
    (hf : f ∈ (m.select keep).functions) : f.DeclaredIn (m.select keep) := by
  have hnamed : ∀ t ∈ f.types, ∀ path, t.Names path → m.selects keep path = true := by
    intro t ht path hnames
    refine selects_of_mentioned hf (List.mem_cons_of_mem _ (List.mem_filterMap.mpr ⟨t, ht, ?_⟩))
    exact (ManagedType.names_iff t path).mp hnames
  refine ⟨?_, ?_, ?_⟩
  · exact exists_class_select h.owner (selects_of_mentioned hf List.mem_cons_self)
  · intro t ht path hpath
    exact exists_enum_select (h.enums t ht path hpath) (hnamed t ht path (Or.inl hpath))
  · intro t ht path hpath
    exact exists_class_select (h.classes t ht path hpath) (hnamed t ht path (Or.inr hpath))

/-- A selection that asks for more leaves a selection as it is: what was kept only for being
mentioned is mentioned again. -/
theorem select_select_of_le {wider : TypePath → Bool}
    (h : ∀ path, keep path = true → wider path = true) :
    (m.select keep).select wider = m.select keep := by
  have hfunctions : ((m.select keep).select wider).functions = (m.select keep).functions := by
    refine List.filter_eq_self.mpr fun f hf => h _ ?_
    exact (List.mem_filter.mp hf).2
  have hselects : ∀ path, m.selects keep path = true →
      (m.select keep).selects wider path = true := by
    intro path hpath
    rw [selects_iff, hfunctions]
    exact ((m.selects_iff keep path).mp hpath).imp_left (h path)
  have hclasses : ((m.select keep).select wider).classes = (m.select keep).classes :=
    List.filter_eq_self.mpr fun c hc => hselects _ (List.mem_filter.mp hc).2
  have henums : ((m.select keep).select wider).enums = (m.select keep).enums :=
    List.filter_eq_self.mpr fun e he => hselects _ (List.mem_filter.mp he).2
  calc (m.select keep).select wider
      = ⟨((m.select keep).select wider).classes, ((m.select keep).select wider).enums,
          ((m.select keep).select wider).functions, []⟩ := rfl
    _ = m.select keep := by
      rw [hclasses, henums, hfunctions]
      rfl

/-- To ask for all types leaves out the errors of a model only. -/
lemma select_all (m : BindingModel) : m.select (fun _ => true) = { m with errors := [] } := by
  have hfunctions : m.functions.filter (fun _ => true) = m.functions := List.filter_true _
  have hclasses : (m.select fun _ => true).classes = m.classes :=
    List.filter_eq_self.mpr fun _ _ => Bool.true_or _
  have henums : (m.select fun _ => true).enums = m.enums :=
    List.filter_eq_self.mpr fun _ _ => Bool.true_or _
  calc m.select (fun _ => true)
      = ⟨(m.select fun _ => true).classes, (m.select fun _ => true).enums,
          m.functions.filter (fun _ => true), []⟩ := rfl
    _ = { m with errors := [] } := by rw [hclasses, henums, hfunctions]

end BindingModel

/-- A selection of a bound model has what is asked for and what this mentions, so that it can be
used alone; to select twice is to select once, and all is left by asking for all. -/
theorem select_standsAlone (a : Assembly) (keep : TypePath → Bool) :
    (BindingModel.ofAssembly a).IsSelection keep ((BindingModel.ofAssembly a).select keep) ∧
      (∀ f ∈ ((BindingModel.ofAssembly a).select keep).functions,
        f.DeclaredIn ((BindingModel.ofAssembly a).select keep)) ∧
      ((BindingModel.ofAssembly a).select keep).select keep =
        (BindingModel.ofAssembly a).select keep ∧
      (BindingModel.ofAssembly a).select (fun _ => true) =
        { BindingModel.ofAssembly a with errors := [] } := by
  refine ⟨BindingModel.isSelection_select _ _, ?_, ?_, BindingModel.select_all _⟩
  · intro f hf
    have hbound : f ∈ (BindingModel.ofAssembly a).functions := (List.mem_filter.mp hf).1
    exact BindingModel.declaredIn_select (declaredIn_of_mem_functions hbound) hf
  · exact BindingModel.select_select_of_le fun _ => id

end Interop.Model
