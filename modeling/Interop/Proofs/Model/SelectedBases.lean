/-
# Bases in a selection

A class of a selection keeps its base, but the base is kept as a class only if it is asked for or if
functions of the selection mention it.  So a way from class to base in a selection is one in the
model, and it ends where the model goes on to a class that was left out.  Bound models have no
cycles, and each class has one base at most; hence the classes between two others are those on the
one way from the first to the second, and inheritance between the two is kept exactly if all of them
are kept (`select_inherits_iff`).

Main result: `select_inherits_iff`.
-/
import Interop.Proofs.Model.Bases
import Interop.Proofs.Model.Selections

namespace Interop.Model

open Source

namespace BindingModel

variable {m : BindingModel} {keep : TypePath → Bool}

/-- In a selection the classes that were left out have no base. -/
lemma class?_select_of_not {path : TypePath} (h : m.selects keep path = false) :
    (m.select keep).class? path = none := by
  rw [class?, List.find?_eq_none, classes_select]
  intro c hc hpath
  have hselects := (List.mem_filter.mp hc).2
  rw [of_decide_eq_true hpath, h] at hselects
  cases hselects

lemma derives_select_iff {p q : TypePath} :
    (m.select keep).Derives p q ↔ m.Derives p q ∧ m.selects keep p = true := by
  rw [Derives, Derives, base?, base?]
  cases hp : m.selects keep p with
  | true => simp [class?_select hp]
  | false => simp [class?_select_of_not hp]

/-- A class has one base at most. -/
lemma Derives.unique {p q r : TypePath} (hq : m.Derives p q) (hr : m.Derives p r) : q = r :=
  Option.some.inj (hq.symm.trans hr)

/-- In a selection a way is left of those whose classes, the last one apart, are all kept. -/
lemma reflTransGen_select_iff (hm : m.Acyclic) {p q : TypePath} :
    Relation.ReflTransGen (m.select keep).Derives p q ↔
      Relation.ReflTransGen m.Derives p q ∧ ∀ r, Relation.ReflTransGen m.Derives p r →
        Relation.TransGen m.Derives r q → m.selects keep r = true := by
  constructor
  · intro h
    induction h using Relation.ReflTransGen.head_induction_on with
    | refl => exact ⟨.refl, fun r hto hfrom => absurd (hfrom.trans_left hto) (hm r)⟩
    | @head p p' hstep _ ih =>
      obtain ⟨hway, hkept⟩ := ih
      obtain ⟨hbase, hp⟩ := derives_select_iff.mp hstep
      refine ⟨.head hbase hway, fun r hto hfrom => ?_⟩
      rcases hto.cases_head with rfl | ⟨p'', hbase', hto⟩
      · exact hp
      · obtain rfl := hbase.unique hbase'
        exact hkept r hto hfrom
  · rintro ⟨hway, hkept⟩
    induction hway using Relation.ReflTransGen.head_induction_on with
    | refl => exact .refl
    | @head p p' hbase hway ih =>
      have hp : m.selects keep p = true := hkept p .refl (.head' hbase hway)
      have hrest : ∀ r, Relation.ReflTransGen m.Derives p' r →
          Relation.TransGen m.Derives r q → m.selects keep r = true :=
        fun r hto hfrom => hkept r (.head hbase hto) hfrom
      exact .head (derives_select_iff.mpr ⟨hbase, hp⟩) (ih hrest)

lemma isAssignable_of_select {p q : TypePath} (h : (m.select keep).isAssignable p q = true) :
    m.isAssignable p q = true := by
  rw [isAssignable_iff_reflTransGen] at h ⊢
  exact Relation.ReflTransGen.mono (fun _ _ hstep => (derives_select_iff.mp hstep).1) _ _ h

/-- The classes between two others, the second one included. -/
lemma selects_between_iff {p q : TypePath} (hq : m.selects keep q = true) :
    (∀ r, Relation.ReflTransGen m.Derives p r → Relation.TransGen m.Derives r q →
        m.selects keep r = true) ↔
      ∀ c ∈ m.classes, m.isAssignable p c.path = true → m.isAssignable c.path q = true →
        c ∈ (m.select keep).classes := by
  simp only [isAssignable_iff_reflTransGen, classes_select, List.mem_filter]
  constructor
  · intro h c hc hto hfrom
    refine ⟨hc, ?_⟩
    rcases Relation.reflTransGen_iff_eq_or_transGen.mp hfrom with rfl | hfrom
    · exact hq
    · exact h c.path hto hfrom
  · intro h r hto hfrom
    obtain ⟨base, hbase, -⟩ := Relation.TransGen.head'_iff.mp hfrom
    obtain ⟨c, hc, rfl⟩ := List.mem_map.mp (mem_classes_of_base? hbase)
    exact (h c hc hto hfrom.to_reflTransGen).2

end BindingModel

/-- In a selection of a bound model, a class is assignable to one of the selection only where it is
in the model, and as in the model exactly if all classes between the two are in the selection. -/
theorem select_inherits_iff (a : Assembly) (keep : TypePath → Bool) (p : TypePath) {c : BoundClass}
    (hc : c ∈ ((BindingModel.ofAssembly a).select keep).classes) :
    (((BindingModel.ofAssembly a).select keep).isAssignable p c.path = true →
      (BindingModel.ofAssembly a).isAssignable p c.path = true) ∧
    (((BindingModel.ofAssembly a).select keep).isAssignable p c.path =
        (BindingModel.ofAssembly a).isAssignable p c.path ↔
      ∀ d ∈ (BindingModel.ofAssembly a).classes,
        (BindingModel.ofAssembly a).isAssignable p d.path = true →
        (BindingModel.ofAssembly a).isAssignable d.path c.path = true →
        d ∈ ((BindingModel.ofAssembly a).select keep).classes) := by
  have hselected : (BindingModel.ofAssembly a).selects keep c.path = true :=
    (List.mem_filter.mp hc).2
  have hway : Relation.ReflTransGen ((BindingModel.ofAssembly a).select keep).Derives p c.path ↔
      _ := BindingModel.reflTransGen_select_iff (acyclic_ofAssembly a)
  rw [BindingModel.selects_between_iff hselected,
    ← BindingModel.isAssignable_iff_reflTransGen,
    ← BindingModel.isAssignable_iff_reflTransGen] at hway
  refine ⟨BindingModel.isAssignable_of_select, ?_⟩
  rw [Bool.eq_iff_iff, hway]
  constructor
  · intro h d hd hto hfrom
    exact (h.mpr (BindingModel.isAssignable_trans hto hfrom)).2 d hd hto hfrom
  · exact fun hkept => and_iff_left hkept

/-- The class in the middle is not asked for, but mentioned by a function of the selection. -/
theorem select_inherits_iff_mentioned :
    ∃ a p c, Assembly.ofText ("public class C \x7b \x7d public class B : C \x7b \x7d " ++
        "public class A : B \x7b public void F(B b); \x7d") = .ok a ∧
      c ∈ ((BindingModel.ofAssembly a).select (· ≠ ⟨[], "B"⟩)).classes ∧
      p ≠ c.path ∧ (BindingModel.ofAssembly a).isAssignable p c.path = true ∧
      ((BindingModel.ofAssembly a).select (· ≠ ⟨[], "B"⟩)).isAssignable p c.path = true := by
  have hrun : (Assembly.ofText ("public class C \x7b \x7d public class B : C \x7b \x7d " ++
      "public class A : B \x7b public void F(B b); \x7d")).toOption.any (fun a =>
        ((BindingModel.ofAssembly a).select (· ≠ ⟨[], "B"⟩)).classes =
            (BindingModel.ofAssembly a).classes &&
          (BindingModel.ofAssembly a).isAssignable ⟨[], "A"⟩ ⟨[], "C"⟩ &&
          (BindingModel.ofAssembly a).classes.any (·.path = ⟨[], "C"⟩)) = true := by
    decide +kernel
  obtain ⟨a, ha, hmodel⟩ := Assembly.exists_of_any hrun
  simp only [Bool.and_eq_true, decide_eq_true_iff, List.any_eq_true] at hmodel
  obtain ⟨⟨hclasses, hassignable⟩, c, hc, hpath⟩ := hmodel
  rw [← hclasses] at hc
  rw [← hpath] at hassignable
  have hall := (select_inherits_iff a (· ≠ ⟨[], "B"⟩) ⟨[], "A"⟩ hc).2.mpr
    fun d hd _ _ => hclasses ▸ hd
  refine ⟨a, ⟨[], "A"⟩, c, ha, hc, ?_, hassignable, hall.trans hassignable⟩
  rw [hpath]
  decide

/-- A class whose base is left out is no longer assignable to the base of that base, although both
classes are in the selection and the one derives from the other. -/
theorem select_not_inherits :
    ∃ a p q, Assembly.ofText ("public class C \x7b \x7d public class B : C \x7b \x7d " ++
        "public class A : B \x7b \x7d") = .ok a ∧
      (∃ c ∈ ((BindingModel.ofAssembly a).select (· ≠ ⟨[], "B"⟩)).classes, c.path = p) ∧
      (∃ c ∈ ((BindingModel.ofAssembly a).select (· ≠ ⟨[], "B"⟩)).classes, c.path = q) ∧
      (BindingModel.ofAssembly a).isAssignable p q = true ∧
      ((BindingModel.ofAssembly a).select (· ≠ ⟨[], "B"⟩)).isAssignable p q = false := by
  have hrun : (Assembly.ofText ("public class C \x7b \x7d public class B : C \x7b \x7d " ++
      "public class A : B \x7b \x7d")).toOption.any (fun a =>
        ((BindingModel.ofAssembly a).select (· ≠ ⟨[], "B"⟩)).classes.any (·.path = ⟨[], "A"⟩) &&
          ((BindingModel.ofAssembly a).select (· ≠ ⟨[], "B"⟩)).classes.any (·.path = ⟨[], "C"⟩) &&
          (BindingModel.ofAssembly a).isAssignable ⟨[], "A"⟩ ⟨[], "C"⟩ &&
          !((BindingModel.ofAssembly a).select (· ≠ ⟨[], "B"⟩)).isAssignable ⟨[], "A"⟩
            ⟨[], "C"⟩) = true := by
    decide +kernel
  obtain ⟨a, ha, hmodel⟩ := Assembly.exists_of_any hrun
  simp only [Bool.and_eq_true, Bool.not_eq_true', decide_eq_true_iff, List.any_eq_true] at hmodel
  obtain ⟨⟨⟨hp, hq⟩, hassignable⟩, hlost⟩ := hmodel
  exact ⟨a, _, _, ha, hp, hq, hassignable, hlost⟩

end Interop.Model
