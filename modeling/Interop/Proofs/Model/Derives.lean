/-
# The base relation of a model

The bases of the classes of a model, as a relation between paths: what can stand in for what is
its reflexive transitive closure.  Adding a base to a model without cycles closes one exactly if
the base leads back to the class.
-/
import Interop.Model.Binding
import Interop.Proofs.Model.Assignable
import Mathlib.Logic.Relation

namespace Interop.Model

namespace BindingModel

variable {m : BindingModel}

/-- A class has another for its base. -/
def Derives (m : BindingModel) (path base : TypePath) : Prop := m.base? path = some base

/-- No class leads back to itself by way of one or more bases. -/
def Acyclic (m : BindingModel) : Prop := ∀ path, ¬ Relation.TransGen m.Derives path path

/-- Counting the steps from class to class or not makes no difference. -/
lemma exists_ancestor?_iff {p q : TypePath} :
    (∃ k, m.ancestor? k p = some q) ↔ Relation.ReflTransGen m.Derives p q := by
  constructor
  · rintro ⟨k, hk⟩
    induction k generalizing p with
    | zero =>
      obtain rfl := Option.some.inj hk
      exact .refl
    | succ k ih =>
      obtain ⟨base, hbase, hup⟩ := Option.bind_eq_some_iff.mp hk
      exact .head hbase (ih hup)
  · intro h
    induction h using Relation.ReflTransGen.head_induction_on with
    | refl => exact ⟨0, rfl⟩
    | head hbase _ ih =>
      obtain ⟨k, hk⟩ := ih
      exact ⟨k + 1, Option.bind_eq_some_iff.mpr ⟨_, hbase, hk⟩⟩

lemma isAssignable_iff_reflTransGen {p q : TypePath} :
    m.isAssignable p q = true ↔ Relation.ReflTransGen m.Derives p q :=
  isAssignable_iff.trans exists_ancestor?_iff

lemma Acyclic.antisymm (h : m.Acyclic) {p q : TypePath} (hpq : Relation.ReflTransGen m.Derives p q)
    (hqp : Relation.ReflTransGen m.Derives q p) : p = q := by
  rcases Relation.reflTransGen_iff_eq_or_transGen.mp hpq with rfl | hpq
  · rfl
  · exact absurd (hpq.trans_left hqp) (h p)

/-- Of a model only the classes matter for its bases. -/
lemma base?_congr {m' : BindingModel} (h : m'.classes = m.classes) : m'.base? = m.base? := by
  funext path
  rw [base?, base?, class?, class?, h]

lemma acyclic_congr {m' : BindingModel} (h : m'.classes = m.classes) :
    m'.Acyclic ↔ m.Acyclic := by
  have hd : m'.Derives = m.Derives := by
    funext p q
    rw [Derives, Derives, base?_congr h]
  rw [Acyclic, Acyclic, hd]

/-! ### One more base -/

section SetBase

variable {path base : TypePath}

lemma class?_setBase (p : TypePath) :
    (m.setBase path base).class? p =
      (m.class? p).map fun c => if c.path = path then { c with base := some base } else c := by
  rw [setBase, class?, class?, List.find?_map]
  congr 2
  funext c
  simp only [Function.comp_apply]
  split <;> rfl

/-- Nothing happens without a class to give the base to. -/
lemma setBase_of_class?_eq_none (h : m.class? path = none) : m.setBase path base = m := by
  have hsame : ∀ c ∈ m.classes,
      (if c.path = path then { c with base := some base } else c) = c := by
    intro c hc
    have hne := List.find?_eq_none.mp h c hc
    exact if_neg (by simpa using hne)
  rw [setBase, List.map_congr_left hsame, List.map_id']

lemma base?_setBase_self (h : (m.class? path).isSome) :
    (m.setBase path base).base? path = some base := by
  obtain ⟨c, hc⟩ := Option.isSome_iff_exists.mp h
  simp [base?, class?_setBase, hc, (mem_of_class? hc).2]

lemma base?_setBase_of_ne {p : TypePath} (h : p ≠ path) :
    (m.setBase path base).base? p = m.base? p := by
  rw [base?, base?, class?_setBase]
  cases hc : m.class? p with
  | none => rfl
  | some c => simp [(mem_of_class? hc).2, h]

/-- A base of the extended model is the new one, or one that was there. -/
lemma derives_of_setBase {p q : TypePath} (h : (m.setBase path base).Derives p q) :
    p = path ∧ q = base ∨ m.Derives p q := by
  by_cases hp : p = path
  · subst hp
    cases hc : m.class? p with
    | none => simp [Derives, base?, class?_setBase, hc] at h
    | some c =>
      rw [Derives, base?_setBase_self (by rw [hc]; rfl)] at h
      exact Or.inl ⟨rfl, (Option.some.inj h).symm⟩
  · rw [Derives, base?_setBase_of_ne hp] at h
    exact Or.inr h

/-- A way to the class itself need not go over its new base. -/
lemma reflTransGen_of_setBase {p : TypePath}
    (h : Relation.ReflTransGen (m.setBase path base).Derives p path) :
    Relation.ReflTransGen m.Derives p path := by
  induction h using Relation.ReflTransGen.head_induction_on with
  | refl => exact .refl
  | head hstep _ ih =>
    rcases derives_of_setBase hstep with ⟨rfl, _⟩ | hstep
    · exact .refl
    · exact .head hstep ih

/-- A way in the extended model is one in the old model, or goes over the new base. -/
lemma transGen_of_setBase {p q : TypePath}
    (h : Relation.TransGen (m.setBase path base).Derives p q) :
    Relation.TransGen m.Derives p q ∨
      Relation.ReflTransGen (m.setBase path base).Derives p path ∧
        Relation.ReflTransGen (m.setBase path base).Derives base q := by
  induction h with
  | single hstep =>
    rcases derives_of_setBase hstep with ⟨rfl, rfl⟩ | hstep
    · exact Or.inr ⟨.refl, .refl⟩
    · exact Or.inl (.single hstep)
  | tail hway hstep ih =>
    rcases ih with hold | ⟨hto, hfrom⟩
    · rcases derives_of_setBase hstep with ⟨rfl, rfl⟩ | hstep
      · exact Or.inr ⟨hway.to_reflTransGen, .refl⟩
      · exact Or.inl (hold.tail hstep)
    · exact Or.inr ⟨hto, hfrom.tail hstep⟩

/-- A base that does not lead to the class closes no cycle. -/
lemma acyclic_setBase (hm : m.Acyclic) (h : ¬ Relation.ReflTransGen m.Derives base path) :
    (m.setBase path base).Acyclic := by
  intro p hp
  rcases transGen_of_setBase hp with hold | ⟨hto, hfrom⟩
  · exact hm p hold
  · exact h (reflTransGen_of_setBase (hfrom.trans hto))

/-- A base that leads to a class without a base closes a cycle. -/
lemma not_acyclic_setBase (hclass : (m.class? path).isSome) (hnone : m.base? path = none)
    (h : Relation.ReflTransGen m.Derives base path) : ¬ (m.setBase path base).Acyclic := by
  intro hacyclic
  have hkept : ∀ p q, m.Derives p q → (m.setBase path base).Derives p q := by
    intro p q hpq
    have hne : p ≠ path := by
      rintro rfl
      rw [Derives, hnone] at hpq
      cases hpq
    rw [Derives, base?_setBase_of_ne hne]
    exact hpq
  exact hacyclic path
    (.head' (base?_setBase_self hclass) (Relation.ReflTransGen.mono hkept _ _ h))

/-- Adding a base that is there changes nothing. -/
lemma acyclic_setBase_of_derives (hm : m.Acyclic) (h : m.Derives path base) :
    (m.setBase path base).Acyclic := by
  have hold : ∀ p q, (m.setBase path base).Derives p q → m.Derives p q := by
    intro p q hpq
    rcases derives_of_setBase hpq with ⟨rfl, rfl⟩ | hpq
    · exact h
    · exact hpq
  exact fun p hp => hm p (Relation.TransGen.mono hold _ _ hp)

end SetBase

/-- Whether the class with a path is static, if there is one. -/
def static? (m : BindingModel) (path : TypePath) : Option Bool := (m.class? path).map (·.isStatic)

lemma static?_setBase (path base : TypePath) : (m.setBase path base).static? = m.static? := by
  funext p
  rw [static?, static?, class?_setBase, Option.map_map]
  congr 1
  funext c
  simp only [Function.comp_apply]
  split <;> rfl

lemma static?_congr {m' : BindingModel} (h : m'.classes = m.classes) : m'.static? = m.static? := by
  funext p
  rw [static?, static?, class?, class?, h]

end BindingModel

end Interop.Model
