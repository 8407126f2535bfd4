/-
# A bound model is closed

The functions of a bound model refer to nothing outside of it.  Every type that stands in a
parameter or a result, also as an element of an array, is built as the boundary wants it, and the
enums and classes in it are those of the model; the owner of a function is a class of the model,
and a static class has neither constructors nor functions that take a receiver.

Main result: `typesClosed_of_mem_functions`.
-/
import Interop.Proofs.Model.PassedTypes

namespace Interop.Model

open Source

/-- A type stands in another: it is that type, or stands in its elements. -/
inductive ManagedType.Within (t : ManagedType) : ManagedType → Prop
  | self : Within t t
  | element {e : ManagedType} (h : t.Within e) : Within t (.array e)

namespace BindingModel

variable {m : BindingModel}

lemma PassesOne.ne_void {t : ManagedType} (h : m.PassesOne t) : t ≠ .void := by
  cases h <;> simp

lemma PassesOne.ne_array {t : ManagedType} (h : m.PassesOne t) (e : ManagedType) :
    t ≠ .array e := by
  cases h <;> simp

lemma Passes.ne_void {t : ManagedType} (h : m.Passes t) : t ≠ .void := by
  cases h with
  | one hone => exact hone.ne_void
  | array => simp

lemma Passes.element {e : ManagedType} (h : m.Passes (.array e)) : m.PassesOne e := by
  cases h with
  | one hone => exact absurd rfl (hone.ne_array e)
  | array hone => exact hone

/-- What stands in a type that is passed, is passed. -/
lemma Passes.of_within {t u : ManagedType} (h : m.Passes t) (hu : u.Within t) : m.Passes u := by
  induction hu with
  | self => exact h
  | element _ ih => exact ih (.one h.element)

lemma Passes.exists_enum {path : TypePath} (h : m.Passes (.enum path)) :
    ∃ e, m.enum? path = some e := by
  obtain ⟨hone⟩ := h
  cases hone with
  | enum he => exact ⟨_, he⟩

lemma Passes.exists_class {path : TypePath} (h : m.Passes (.object path)) :
    ∃ c, m.class? path = some c ∧ c.isStatic = false := by
  obtain ⟨hone⟩ := h
  cases hone with
  | object hc hstatic => exact ⟨_, hc, hstatic⟩

end BindingModel

/-- A class of a model is the only one with its path. -/
lemma class?_path {a : Assembly} {c : BoundClass}
    (hc : c ∈ (BindingModel.ofAssembly a).classes) :
    (BindingModel.ofAssembly a).class? c.path = some c :=
  (find?_eq_some_iff_of_nodup (nodup_classes a)).mpr ⟨hc, rfl⟩

/-- A function whose types are good for the boundary and refer to a model only. -/
structure NativeFunction.TypesClosed (m : BindingModel) (f : NativeFunction) : Prop where
  params_ne_void : ∀ p ∈ f.params, p.type ≠ .void
  byRef_ne_array : ∀ p ∈ f.params, p.direction ≠ .input → ∀ e, p.type ≠ .array e
  elements : ∀ t ∈ f.types, ∀ e, (ManagedType.array e).Within t →
    e ≠ .void ∧ ∀ inner, e ≠ .array inner
  enums : ∀ t ∈ f.types, ∀ path, (ManagedType.enum path).Within t → ∃ e ∈ m.enums, e.path = path
  classes : ∀ t ∈ f.types, ∀ path, (ManagedType.object path).Within t →
    (∃ c ∈ m.classes, c.path = path) ∧ ∀ c ∈ m.classes, c.path = path → c.isStatic = false
  owner : ∃ c ∈ m.classes, c.path = f.owner
  static_owner : ∀ c ∈ m.classes, c.path = f.owner → c.isStatic = true →
    f.takesHandle = false ∧ f.kind ≠ .constructor

/-- What stands in a type of a bound function is passed, unless the function returns nothing. -/
lemma passes_of_within_types {a : Assembly} {f : NativeFunction}
    (hf : f ∈ (BindingModel.ofAssembly a).functions) {t u : ManagedType} (ht : t ∈ f.types)
    (hu : u.Within t) : u = .void ∨ (BindingModel.ofAssembly a).Passes u := by
  obtain ⟨hparams, hreturns⟩ := passes_of_mem_functions hf
  rcases List.mem_append.mp ht with ht | ht
  · obtain ⟨p, hp, rfl⟩ := List.mem_map.mp ht
    exact Or.inr ((hparams p hp).1.of_within hu)
  · obtain rfl := List.mem_singleton.mp ht
    rcases hreturns with hvoid | hpasses
    · rw [hvoid] at hu
      cases hu
      exact Or.inl rfl
    · exact Or.inr (hpasses.of_within hu)

/-- Every function of a bound model is closed. -/
theorem typesClosed_of_mem_functions (a : Assembly) (f : NativeFunction)
    (hf : f ∈ (BindingModel.ofAssembly a).functions) :
    f.TypesClosed (BindingModel.ofAssembly a) := by
  have hparams := (passes_of_mem_functions hf).1
  obtain ⟨owner, howner, hstatic⟩ := class?_owner hf
  refine ⟨?_, ?_, ?_, ?_, ?_, ?_, ?_⟩
  · intro p hp
    exact (hparams p hp).1.ne_void
  · intro p hp hdirection
    refine ((hparams p hp).2 ?_).ne_array
    cases hd : p.direction with
    | input => exact absurd hd hdirection
    | out | ref => rfl
  · intro t ht e he
    have hone := ((passes_of_within_types hf ht he).resolve_left (by simp)).element
    exact ⟨hone.ne_void, hone.ne_array⟩
  · intro t ht path hpath
    obtain ⟨e, he⟩ := ((passes_of_within_types hf ht hpath).resolve_left (by simp)).exists_enum
    exact ⟨e, BindingModel.mem_of_enum? he⟩
  · intro t ht path hpath
    obtain ⟨c, hc, hcstatic⟩ :=
      ((passes_of_within_types hf ht hpath).resolve_left (by simp)).exists_class
    refine ⟨⟨c, BindingModel.mem_of_class? hc⟩, ?_⟩
    rintro d hd rfl
    -- there is no other class with this path
    rw [class?_path hd] at hc
    rw [Option.some.inj hc]
    exact hcstatic
  · exact ⟨owner, BindingModel.mem_of_class? howner⟩
  · intro c hc hpath hcstatic
    rw [← hpath, class?_path hc] at howner
    obtain rfl := Option.some.inj howner
    have hfstatic := hstatic hcstatic
    refine ⟨by simp [NativeFunction.takesHandle, hfstatic], ?_⟩
    intro hkind
    have := (constructor_spec hf hkind).1
    rw [hfstatic] at this
    cases this

/-- A method with a receiver, an array of enum values and an object passed by reference. -/
theorem typesClosed_method :
    ∃ a f, Assembly.ofText ("public enum E \x7b X \x7d public class A \x7b " ++
        "public E[] f(string text, ref A other); \x7d") = .ok a ∧
      f ∈ (BindingModel.ofAssembly a).functions ∧ f.takesHandle = true ∧
      f.TypesClosed (BindingModel.ofAssembly a) := by
  have hrun : (Assembly.ofText ("public enum E \x7b X \x7d public class A \x7b " ++
      "public E[] f(string text, ref A other); \x7d")).toOption.any (fun a =>
        (BindingModel.ofAssembly a).functions.any (·.takesHandle)) = true := by
    decide +kernel
  obtain ⟨a, ha, hfunctions⟩ := Assembly.exists_of_any hrun
  obtain ⟨f, hf, hhandle⟩ := List.any_eq_true.mp hfunctions
  exact ⟨a, f, ha, hf, hhandle, typesClosed_of_mem_functions a f hf⟩

end Interop.Model
