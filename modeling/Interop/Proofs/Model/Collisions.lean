/-
# What a name collides with

A collision is reported with something of the model, except that an enum whose content is faulty
has its names although it is left out (`collision_with_bound_or_abandoned`).  So a declaration that
is not bound can only stand in the way of others if it is such an enum, and then it does
(`collision_with_missing`).
-/
import Interop.Proofs.Model.Owners

namespace Interop.Model

open Source

section

variable {path : TypePath}

lemma ClaimRefused.ne_invalidEnum {symbol : String} {claimant : Claimant} {fault : BindingFault}
    (h : ClaimRefused symbol claimant fault) {f : EnumFault} : fault ≠ .invalidEnum path f := by
  cases h with
  | identifier | collision => nofun

lemma ItemRefused.ne_invalidEnum {other : TypePath} {fault : BindingFault}
    (h : ItemRefused other fault) {f : EnumFault} : fault ≠ .invalidEnum path f := by
  obtain ⟨_, h⟩ := h
  exact h.ne_invalidEnum

/-- The pass over the enums reports the content of an enum only if it adds no enum. -/
lemma EnumGain.leaves_out {new : Declared} {g : Gain} (h : EnumGain new g) {f : EnumFault}
    {span : Span} (he : ⟨.invalidEnum path f, span⟩ ∈ g.errors) :
    new.path = path ∧ g.enums = [] := by
  cases h with
  | hidden | other => cases he
  | bound _ _ _ h => exact absurd rfl (h _ he).ne_invalidEnum
  | leftOut _ _ _ h =>
    refine ⟨?_, rfl⟩
    generalize hfault : BindingFault.invalidEnum path f = fault at he
    cases h _ he with
    | name h => exact absurd hfault.symm h.ne_invalidEnum
    | item h => exact absurd hfault.symm h.ne_invalidEnum
    | content => cases hfault; rfl

lemma ClassGain.ne_invalidEnum {new : Declared} {g : Gain} (h : ClassGain new g) :
    ∀ e ∈ g.errors, ∀ f, e.fault ≠ .invalidEnum path f := by
  cases h with
  | hidden | enum | bound => exact nofun
  | valueType => exact List.forall_mem_singleton.mpr nofun
  | leftOut _ _ h => exact List.forall_mem_singleton.mpr fun _ => h.ne_invalidEnum

lemma BaseGain.ne_invalidEnum {bound : List TypePath} {new : Declared} {g : Gain}
    (h : BaseGain bound new g) : ∀ e ∈ g.errors, ∀ f, e.fault ≠ .invalidEnum path f := by
  cases h with
  | nothing => exact nofun
  | refused => exact List.forall_mem_singleton.mpr nofun

lemma MemberOutcome.ne_invalidEnum {decls : List Declared} {m : BindingModel} {owner : TypePath}
    {c : Candidate × Nat} {e : BindingError} (h : MemberOutcome decls m owner c (.error e))
    (f : EnumFault) : e.fault ≠ .invalidEnum path f := by
  cases h with
  | unbound h =>
    have hfault := bindFunction_fault h
    generalize e.fault = fault at hfault ⊢
    cases hfault with
    | type h =>
      cases h with
      | unsupported | unknown => nofun
    | static | identifier => nofun
  | collision => nofun

end

/-- An error about the content of an enum is about a declared one, which is not in the model. -/
lemma exists_of_invalidEnum {a : Assembly} {path : TypePath} {f : EnumFault} {span : Span}
    (h : ⟨.invalidEnum path f, span⟩ ∈ (BindingModel.ofAssembly a).errors) :
    (∃ new ∈ (Declared.ofAssembly a).1, new.path = path) ∧
      (BindingModel.ofAssembly a).enum? path = none := by
  obtain ⟨share, hshare⟩ := exists_contributions a
  rw [hshare.errors] at h
  simp only [List.mem_append, List.mem_flatMap] at h
  rcases h with h | ((h | ⟨new, hnew, he⟩) | ⟨new, hnew, he⟩) | ⟨new, hnew, he⟩
  · obtain ⟨_, hfault⟩ := errors_ofAssembly a _ h
    cases hfault
  · obtain ⟨new, hnew, he⟩ := h
    obtain ⟨rfl, hnone⟩ := (hshare.inEnums new hnew).leaves_out he
    refine ⟨⟨new, hnew, rfl⟩, ?_⟩
    rw [← Option.not_isSome_iff_eq_none, hshare.isSome_enum?_iff hnew, hnone]
    exact List.not_mem_nil
  · exact absurd rfl ((hshare.inClasses new hnew).ne_invalidEnum _ he f)
  · exact absurd rfl ((hshare.inBases new hnew).ne_invalidEnum _ he f)
  · obtain ⟨o, ho, herror⟩ := List.mem_filterMap.mp he
    obtain ⟨_, c, _, houtcome⟩ := (hshare.members new hnew).exists_candidate ho
    cases o with
    | ok => cases herror
    | error e =>
      obtain rfl := Option.some.inj herror
      exact absurd rfl (houtcome.ne_invalidEnum f)

/-- Every name of a model has an owner, which is in the model under this name. -/
lemma owns_of_mem_claims {a : Assembly} {p : String × Claimant}
    (hp : p ∈ (BindingModel.ofAssembly a).claims) :
    ∃ q ∈ (BindingModel.ofAssembly a).claims, q.1 = p.1 ∧ (Draft.ofAssembly a).Owns q := by
  have hrec := recorded_ofAssembly a
  rcases BindingModel.mem_claims_iff.mp hp with ⟨e, he, hmem⟩ | ⟨c, hc, rfl⟩ | ⟨f, hf, hmem⟩
  · exact ⟨p, hp, rfl, hrec.enums e he p hmem⟩
  · exact ⟨c.claim, hp, rfl, hrec.classes c hc⟩
  · obtain ⟨new, hnew, c, hc, hclass, hbind⟩ := exists_bindFunction hf
    rcases function_added_or_refused a hnew hclass hc hbind with ⟨_, howns⟩ | ⟨hnot, _⟩
    · obtain ⟨q, hq, hname, hq'⟩ := howns p hmem
      exact ⟨q, BindingModel.claims_subset_claims hf q hq, hname, hq'⟩
    · exact absurd hf hnot

/-- In a model, what belongs to an enum stands there with the enum. -/
lemma BindingModel.isSome_enum?_of_mem_claims {m : BindingModel} {p : String × Claimant}
    {path : TypePath} (hp : p ∈ m.claims) (hpath : p.2.enumPath? = some path) :
    (m.enum? path).isSome := by
  rcases mem_claims_iff.mp hp with ⟨e, he, hmem⟩ | ⟨c, _, rfl⟩ | ⟨f, _, hmem⟩
  · have hsame : p.2.enumPath? = some e.path := by
      rcases List.mem_cons.mp hmem with rfl | hmem
      · rfl
      · obtain ⟨i, _, rfl⟩ := List.mem_map.mp hmem
        rfl
    obtain rfl := Option.some.inj (hsame.symm.trans hpath)
    exact isSome_enum?_iff.mpr (List.mem_map_of_mem he)
  · cases hpath
  · rcases List.mem_cons.mp hmem with rfl | hmem
    · cases hpath
    · obtain ⟨e, _, rfl⟩ := List.mem_map.mp hmem
      cases hpath

/-- A name that belongs to an enum, or to an item of one, that is not in the model is no name of the
model. -/
lemma notMem_nativeNames {a : Assembly} {p : String × Claimant} {path : TypePath}
    (howns : (Draft.ofAssembly a).Owns p) (hpath : p.2.enumPath? = some path)
    (hnone : (BindingModel.ofAssembly a).enum? path = none) :
    p.1 ∉ (BindingModel.ofAssembly a).nativeNames := by
  intro hmem
  obtain ⟨q, hq, hname⟩ := List.mem_map.mp hmem
  obtain ⟨r, hr, hsame, howner⟩ := owns_of_mem_claims hq
  -- a name has one owner
  rw [Draft.Owns, hsame, hname, howns] at howner
  obtain rfl : p = r := Prod.ext (hsame.trans hname).symm (Option.some.inj howner)
  have hsome := BindingModel.isSome_enum?_of_mem_claims hr hpath
  rw [hnone] at hsome
  cases hsome

/-- A collision is reported with what has the name in the model, or with an enum, or an item of
one, that is not in the model because there is an error about its content; then nothing in the model
has the name. -/
theorem collision_with_bound_or_abandoned (a : Assembly) {symbol : String}
    {claimant existing : Claimant} {span : Span}
    (h : ⟨.nameCollision symbol claimant existing, span⟩ ∈ (BindingModel.ofAssembly a).errors) :
    (symbol, existing) ∈ (BindingModel.ofAssembly a).claims ∨
    symbol ∉ (BindingModel.ofAssembly a).nativeNames ∧
      ∃ path fault span', existing.enumPath? = some path ∧
        (BindingModel.ofAssembly a).enum? path = none ∧
        ⟨.invalidEnum path fault, span'⟩ ∈ (BindingModel.ofAssembly a).errors := by
  have howns : (Draft.ofAssembly a).Owns (symbol, existing) := Draft.backed_ofAssembly a _ h
  refine (Draft.accounted_ofAssembly a howns).purpose.imp_right ?_
  rintro ⟨path, fault, span', hpath, herror⟩
  have hnone := (exists_of_invalidEnum herror).2
  exact ⟨notMem_nativeNames howns hpath hnone, path, fault, span', hpath, hnone, herror⟩

/-- A method that is called like a class. -/
theorem collision_with_bound_class :
    ∃ a symbol claimant existing span,
      Assembly.ofText ("public class C_D \x7b \x7d " ++
        "public class C \x7b public static void D(); \x7d") = .ok a ∧
      ⟨.nameCollision symbol claimant existing, span⟩ ∈ (BindingModel.ofAssembly a).errors ∧
      ((symbol, existing) ∈ (BindingModel.ofAssembly a).claims ∨
        symbol ∉ (BindingModel.ofAssembly a).nativeNames ∧
          ∃ path fault span', existing.enumPath? = some path ∧
            (BindingModel.ofAssembly a).enum? path = none ∧
            ⟨.invalidEnum path fault, span'⟩ ∈ (BindingModel.ofAssembly a).errors) := by
  have hrun : (Assembly.ofText ("public class C_D \x7b \x7d " ++
      "public class C \x7b public static void D(); \x7d")).toOption.any (fun a =>
        (BindingModel.ofAssembly a).errors.any fun e => e.fault = .nameCollision "C_D"
          (.function ⟨[], "C"⟩ "D" 0) (.classType ⟨[], "C_D"⟩)) = true := by
    decide +kernel
  obtain ⟨a, ha, herrors⟩ := Assembly.exists_of_any hrun
  obtain ⟨⟨fault, span⟩, herror, hfault⟩ := List.any_eq_true.mp herrors
  obtain rfl := of_decide_eq_true hfault
  exact ⟨a, _, _, _, span, ha, herror, collision_with_bound_or_abandoned a herror⟩

/-- A class whose name would be that of an enum: both are left out, and nothing has the name. -/
theorem collision_with_missing :
    ∃ a symbol claimant existing span,
      Assembly.ofText ("public enum A_B \x7b X = Y \x7d " ++
        "namespace A \x7b public class B \x7b \x7d \x7d") = .ok a ∧
      ⟨.nameCollision symbol claimant existing, span⟩ ∈ (BindingModel.ofAssembly a).errors ∧
      symbol ∉ (BindingModel.ofAssembly a).nativeNames := by
  have hrun : (Assembly.ofText ("public enum A_B \x7b X = Y \x7d " ++
      "namespace A \x7b public class B \x7b \x7d \x7d")).toOption.any (fun a =>
        ((BindingModel.ofAssembly a).errors.any fun e => e.fault = .nameCollision "A_B"
          (.classType ⟨["A"], "B"⟩) (.enumType ⟨[], "A_B"⟩)) &&
        (BindingModel.ofAssembly a).nativeNames.isEmpty) = true := by
    decide +kernel
  obtain ⟨a, ha, hmodel⟩ := Assembly.exists_of_any hrun
  obtain ⟨herrors, hnames⟩ := Bool.and_eq_true_iff.mp hmodel
  obtain ⟨⟨fault, span⟩, herror, hfault⟩ := List.any_eq_true.mp herrors
  obtain rfl := of_decide_eq_true hfault
  refine ⟨a, _, _, _, span, ha, herror, ?_⟩
  rw [List.isEmpty_iff.mp hnames]
  exact List.not_mem_nil

end Interop.Model
