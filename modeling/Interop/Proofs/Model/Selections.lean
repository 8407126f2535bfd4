/-
# Functions by class

In a bound model the functions of a class stand together, and those of one class before those of
the next (`BindingModel.ByClass`).  So it makes no difference whether functions are listed as they
stand or class by class, also in a selection, which keeps with its functions all types that these
mention.
-/
import Interop.Model.Selection
import Interop.Proofs.Model.Gains

namespace Interop.Model

open Source

/-- The functions of a model are those of its classes, one class after the other. -/
def BindingModel.ByClass (m : BindingModel) : Prop :=
  m.classes.flatMap (fun c => m.functionsOf c.path) = m.functions

/-! ### Bound models -/

/-- Of lists put together, each is what has its key. -/
lemma filter_flatMap_key {α β κ : Type} [DecidableEq κ] (key : α → κ) (part : α → List β)
    (keyOf : β → κ) {xs : List α} (hnodup : (xs.map key).Nodup)
    (hpart : ∀ x ∈ xs, ∀ y ∈ part x, keyOf y = key x) {x : α} (hx : x ∈ xs) :
    (xs.flatMap part).filter (fun y => keyOf y = key x) = part x := by
  have hown : (part x).filter (fun y => keyOf y = key x) = part x :=
    List.filter_eq_self.mpr fun y hy => decide_eq_true (hpart x hx y hy)
  have hother : ∀ z ∈ xs, key z ≠ key x → (part z).filter (fun y => keyOf y = key x) = [] := by
    intro z hz hne
    refine List.filter_eq_nil_iff.mpr fun y hy hkey => hne ?_
    exact (hpart z hz y hy).symm.trans (of_decide_eq_true hkey)
  obtain ⟨before, after, rfl⟩ := List.append_of_mem hx
  -- the keys before and after are others
  rw [List.map_append, List.map_cons, List.nodup_append] at hnodup
  obtain ⟨_, hafter, hbefore⟩ := hnodup
  obtain ⟨hafter, _⟩ := List.nodup_cons.mp hafter
  rw [List.filter_flatMap, List.flatMap_append, List.flatMap_cons, hown,
    List.flatMap_eq_nil_iff.mpr, List.flatMap_eq_nil_iff.mpr, List.nil_append, List.append_nil]
  · intro z hz
    refine hother z (List.mem_append_right _ (List.mem_cons_of_mem _ hz)) fun hsame => hafter ?_
    exact List.mem_map.mpr ⟨z, hz, hsame⟩
  · intro z hz
    refine hother z (List.mem_append_left _ hz) ?_
    exact hbefore _ (List.mem_map_of_mem hz) _ List.mem_cons_self

section

variable {a : Assembly} {share : Declared → Share} {new : Declared}

/-- The functions of a declaration's members are those that it owns. -/
lemma Contributions.functionsOf_path (h : Contributions a share)
    (hnew : new ∈ (Declared.ofAssembly a).1) :
    (BindingModel.ofAssembly a).functionsOf new.path =
      (share new).members.filterMap Outcome.function? := by
  rw [BindingModel.functionsOf, h.functions]
  refine filter_flatMap_key Declared.path _ NativeFunction.owner (nodup_path_ofAssembly a) ?_ hnew
  intro other hother f hf
  obtain ⟨o, ho, hfunction⟩ := List.mem_filterMap.mp hf
  obtain ⟨_, c, _, houtcome⟩ := (h.members other hother).exists_candidate ho
  cases houtcome with
  | function hbind =>
    obtain rfl := Option.some.inj hfunction
    exact (isBinding_of_bindFunction hbind).owner
  | unbound | collision => cases hfunction

end

lemma byClass_ofAssembly (a : Assembly) : (BindingModel.ofAssembly a).ByClass := by
  obtain ⟨share, h⟩ := exists_contributions a
  calc (BindingModel.ofAssembly a).classes.flatMap
        (fun c => (BindingModel.ofAssembly a).functionsOf c.path)
      = ((BindingModel.ofAssembly a).classes.map (·.path)).flatMap
          (BindingModel.ofAssembly a).functionsOf := (List.flatMap_map ..).symm
    _ = (Declared.ofAssembly a).1.flatMap fun new => (share new).inClasses.classes.flatMap
          (BindingModel.ofAssembly a).functionsOf := by rw [h.classes, List.flatMap_assoc]
    _ = (Declared.ofAssembly a).1.flatMap fun new =>
          (share new).members.filterMap Outcome.function? := by
      refine List.flatMap_congr fun new hnew => ?_
      have hpath := h.functionsOf_path hnew
      have hgain := h.inClasses new hnew
      have hnone := h.no_members hnew
      generalize (share new).inClasses = g at hgain hnone ⊢
      -- a declaration adds itself as a class, or has no members
      cases hgain with
      | bound => rw [List.flatMap_singleton, hpath]
      | hidden | enum | valueType | leftOut =>
        rw [(hnone List.not_mem_nil).2.2]
        rfl
    _ = (BindingModel.ofAssembly a).functions := h.functions.symm

/-! ### Selections -/

/-- What is left out of a list makes no difference if it contributes nothing. -/
lemma flatMap_filter_of_nil {α β : Type} {p : α → Bool} {f : α → List β} {xs : List α}
    (h : ∀ x ∈ xs, p x = false → f x = []) : (xs.filter p).flatMap f = xs.flatMap f := by
  induction xs with
  | nil => rfl
  | cons x xs ih =>
    have hrest := ih fun y hy => h y (List.mem_cons_of_mem _ hy)
    cases hp : p x with
    | true => rw [List.filter_cons_of_pos hp, List.flatMap_cons, List.flatMap_cons, hrest]
    | false =>
      rw [List.filter_cons_of_neg (by simp [hp]), List.flatMap_cons, hrest,
        h x List.mem_cons_self hp, List.nil_append]

lemma find?_filter_path {α : Type} (pathOf : α → TypePath) {wanted : TypePath → Bool}
    {path : TypePath} (h : wanted path = true) (xs : List α) :
    (xs.filter fun x => wanted (pathOf x)).find? (fun x => pathOf x = path) =
      xs.find? fun x => pathOf x = path := by
  rw [List.find?_filter]
  congr 1
  funext x
  by_cases hx : pathOf x = path
  · simp [hx, h]
  · simp [hx]

namespace BindingModel

variable {m : BindingModel}

/-- Tells whether a selection has a type: one that is asked for, or that its functions mention. -/
def selects (m : BindingModel) (keep : TypePath → Bool) (path : TypePath) : Bool :=
  keep path || ((m.select keep).functions.flatMap (·.mentioned)).contains path

lemma classes_select (m : BindingModel) (keep : TypePath → Bool) :
    (m.select keep).classes = m.classes.filter fun c => m.selects keep c.path := rfl

lemma enums_select (m : BindingModel) (keep : TypePath → Bool) :
    (m.select keep).enums = m.enums.filter fun e => m.selects keep e.path := rfl

lemma selects_of_mentioned {keep : TypePath → Bool} {f : NativeFunction}
    (hf : f ∈ (m.select keep).functions) {path : TypePath} (hpath : path ∈ f.mentioned) :
    m.selects keep path = true := by
  rw [selects, List.contains_iff_mem.mpr (List.mem_flatMap.mpr ⟨f, hf, hpath⟩), Bool.or_true]

/-- The functions of a class in a selection. -/
lemma functionsOf_select (keep : TypePath → Bool) (path : TypePath) :
    (m.select keep).functionsOf path = (m.functionsOf path).filter fun f => keep f.owner := by
  simp only [functionsOf, select, List.filter_filter, Bool.and_comm]

/-- A selection leaves out no class of its functions, and keeps the order. -/
lemma ByClass.select (h : m.ByClass) (keep : TypePath → Bool) : (m.select keep).ByClass := by
  calc (m.select keep).classes.flatMap (fun c => (m.select keep).functionsOf c.path)
      = m.classes.flatMap (fun c => (m.select keep).functionsOf c.path) := by
        rw [classes_select]
        refine flatMap_filter_of_nil fun c _ hleft => List.eq_nil_iff_forall_not_mem.mpr ?_
        intro f hf
        obtain ⟨hf, howner⟩ := List.mem_filter.mp hf
        rw [← of_decide_eq_true howner, selects_of_mentioned hf List.mem_cons_self] at hleft
        cases hleft
    _ = (m.classes.flatMap fun c => m.functionsOf c.path).filter fun f => keep f.owner := by
        rw [List.filter_flatMap]
        exact List.flatMap_congr fun c _ => functionsOf_select keep c.path
    _ = (m.select keep).functions := by
        rw [h]
        rfl

lemma enum?_select {keep : TypePath → Bool} {path : TypePath} (h : m.selects keep path = true) :
    (m.select keep).enum? path = m.enum? path := by
  rw [enum?, enums_select, find?_filter_path BoundEnum.path h, enum?]

lemma class?_select {keep : TypePath → Bool} {path : TypePath} (h : m.selects keep path = true) :
    (m.select keep).class? path = m.class? path := by
  rw [class?, classes_select, find?_filter_path BoundClass.path h, class?]

lemma PassesOne.select {t : ManagedType} (h : m.PassesOne t) {keep : TypePath → Bool}
    (hselects : ∀ path, t.namedPath? = some path → m.selects keep path = true) :
    (m.select keep).PassesOne t := by
  cases h with
  | primitive p => exact .primitive p
  | string => exact .string
  | enum h => exact .enum ((enum?_select (hselects _ rfl)).trans h)
  | object h hstatic => exact .object ((class?_select (hselects _ rfl)).trans h) hstatic

/-- The types of the functions of a selection are passed by it, as by the model. -/
lemma Passes.select {t : ManagedType} (h : m.Passes t) {keep : TypePath → Bool}
    {f : NativeFunction} (hf : f ∈ (m.select keep).functions) (ht : t ∈ f.types) :
    (m.select keep).Passes t := by
  have hselects : ∀ path, t.namedPath? = some path → m.selects keep path = true := by
    intro path hpath
    exact selects_of_mentioned hf (List.mem_cons_of_mem _ (List.mem_filterMap.mpr ⟨t, ht, hpath⟩))
  cases h with
  | one h => exact .one (h.select hselects)
  | array h => exact .array (h.select hselects)

end BindingModel

end Interop.Model
