/-
# Whose code runs

Code is registered for a class and a signature, and it runs for every function of that class with
that signature.  These are the members of one name whose parameters have the same types and
directions.  The mark `in` is no direction of its own, and binding does not compare signatures, so
two overloads of a model can be such functions without any error about them.

Main result: `dispatch_define_iff`.
-/
import Interop.Proofs.Model.Signatures
import Interop.Session

namespace Interop

open Model Source Managed

/-- What code for a function is registered under. -/
def Model.NativeFunction.dispatchKey (f : NativeFunction) : TypePath × String :=
  (f.owner, f.signature)

namespace Session

lemma implementation?_define (s : Session) (f g : NativeFunction) (p : Program) :
    (s.define f.owner f.signature p).implementation? g =
      if g.dispatchKey = f.dispatchKey then some p else s.implementation? g :=
  Table.get?_set _ _ _ _

/-- Code that is registered for a function runs for the functions with its key, and no others. -/
lemma dispatch_define (s : Session) (f : NativeFunction) (p : Program) (c : Call) :
    (s.define f.owner f.signature p).dispatch c =
      if c.function.dispatchKey = f.dispatchKey then some (p.run c) else s.dispatch c := by
  rw [dispatch, dispatch, implementation?_define]
  by_cases hkey : c.function.dispatchKey = f.dispatchKey
  · rw [if_pos hkey, if_pos hkey]
  · rw [if_neg hkey, if_neg hkey]
    rfl

variable {f g : NativeFunction}

/-- Two functions of a model have one key exactly if they belong to one class, their members have
one name, and their parameters have the same directions and the same texts of types; in the model of
a text, the same types.  Code that is registered for one of them runs for the other exactly then. -/
theorem dispatch_define_iff (a : Assembly) (hf : f ∈ (BindingModel.ofAssembly a).functions)
    (hg : g ∈ (BindingModel.ofAssembly a).functions) :
    (g.dispatchKey = f.dispatchKey ↔ g.owner = f.owner ∧ g.member = f.member ∧
      g.params.map (·.written) = f.params.map (·.written)) ∧
    (∀ source, Assembly.ofText source = .ok a →
      (g.dispatchKey = f.dispatchKey ↔ g.owner = f.owner ∧ g.member = f.member ∧
        g.params.map (·.unnamed) = f.params.map (·.unnamed))) ∧
    ∀ (s : Session) (p : Program) (c : Call), c.function = g →
      (s.define f.owner f.signature p).dispatch c =
        if g.dispatchKey = f.dispatchKey then some (p.run c) else s.dispatch c := by
  have hkey : g.dispatchKey = f.dispatchKey ↔ g.owner = f.owner ∧ g.member = f.member ∧
      g.params.map (·.written) = f.params.map (·.written) := by
    rw [NativeFunction.dispatchKey, NativeFunction.dispatchKey, Prod.mk.injEq,
      signature_eq_iff hg hf]
  refine ⟨hkey, fun source h => ?_, ?_⟩
  · rw [hkey, written_eq_iff h hg hf]
  · rintro s p c rfl
    exact dispatch_define s f p c

/-- Overloads that differ in the mark `ref`: the code for the one is not run for the other. -/
theorem dispatch_define_ref :
    ∃ a, Assembly.ofText
        "public class A \x7b public void f(int x); public void f(ref int x); \x7d" = .ok a ∧
      ∃ f ∈ (BindingModel.ofAssembly a).functions, ∃ g ∈ (BindingModel.ofAssembly a).functions,
        g.owner = f.owner ∧ g.member = f.member ∧
          ∀ (s : Session) (p : Program) (c : Call), c.function = g →
            (s.define f.owner f.signature p).dispatch c = s.dispatch c := by
  have hread : (Assembly.ofText
      "public class A \x7b public void f(int x); public void f(ref int x); \x7d").toOption.any
      (fun a => (BindingModel.ofAssembly a).functions.any fun f =>
        (BindingModel.ofAssembly a).functions.any fun g =>
          decide (g.owner = f.owner ∧ g.member = f.member ∧
            g.params.map (·.unnamed) ≠ f.params.map (·.unnamed))) = true := by
    decide +kernel
  obtain ⟨a, ha, hfunctions⟩ := Assembly.exists_of_any hread
  obtain ⟨f, hf, hothers⟩ := List.any_eq_true.mp hfunctions
  obtain ⟨g, hg, hdiffer⟩ := List.any_eq_true.mp hothers
  obtain ⟨howner, hmember, hparams⟩ := of_decide_eq_true hdiffer
  obtain ⟨-, hkey, hdispatch⟩ := dispatch_define_iff a hf hg
  refine ⟨a, ha, f, hf, g, hg, howner, hmember, fun s p c hc => ?_⟩
  rw [hdispatch s p c hc, if_neg fun h => hparams ((hkey _ ha).mp h).2.2]

/-- Overloads that differ in the mark `in`: there is no error, and the code for the one is run for
the other. -/
theorem dispatch_define_in :
    ∃ a, Assembly.ofText
        "public class A \x7b public void f(int x); public void f(in int x); \x7d" = .ok a ∧
      (BindingModel.ofAssembly a).errors = [] ∧
      ∃ f ∈ (BindingModel.ofAssembly a).functions, ∃ g ∈ (BindingModel.ofAssembly a).functions,
        f ≠ g ∧ (f.owner, f.signature) = (g.owner, g.signature) ∧
          ∀ (s : Session) (p : Program) (c : Call), c.function = g →
            (s.define f.owner f.signature p).dispatch c = some (p.run c) := by
  have hread : (Assembly.ofText
      "public class A \x7b public void f(int x); public void f(in int x); \x7d").toOption.any
      (fun a => decide ((BindingModel.ofAssembly a).errors = []) &&
        (BindingModel.ofAssembly a).functions.any fun f =>
          (BindingModel.ofAssembly a).functions.any fun g =>
            decide (f ≠ g ∧ (f.owner, f.signature) = (g.owner, g.signature))) = true := by
    decide +kernel
  obtain ⟨a, ha, hbound⟩ := Assembly.exists_of_any hread
  obtain ⟨herrors, hfunctions⟩ := Bool.and_eq_true_iff.mp hbound
  obtain ⟨f, hf, hothers⟩ := List.any_eq_true.mp hfunctions
  obtain ⟨g, hg, hshared⟩ := List.any_eq_true.mp hothers
  obtain ⟨hne, hkey⟩ := of_decide_eq_true hshared
  refine ⟨a, ha, of_decide_eq_true herrors, f, hf, g, hg, hne, hkey, ?_⟩
  rintro s p c rfl
  exact (dispatch_define s f p c).trans (if_pos hkey.symm)

end Session

end Interop
