/-
# The types that a model passes

A parameter or a result of a bound function is of a primitive type, a text, an enum or a class of
the model, or an array of one of these; only a result can be nothing.  Enums of a model are of
integral types.
-/
import Interop.Proofs.Except
import Interop.Proofs.Model.NativeNames
import Interop.Proofs.Model.TypePath

namespace Interop.Model

open Source

namespace BindingModel

/-- The types of single values that a model passes. -/
inductive PassesOne (m : BindingModel) : ManagedType → Prop
  | primitive (p : Primitive) : PassesOne m (.primitive p)
  | string : PassesOne m .string
  | enum {path : TypePath} {e : BoundEnum} (h : m.enum? path = some e) : PassesOne m (.enum path)
  | object {path : TypePath} {c : BoundClass} (h : m.class? path = some c)
    (hstatic : c.isStatic = false) : PassesOne m (.object path)

/-- The types of values that a model passes. -/
inductive Passes (m : BindingModel) : ManagedType → Prop
  | one {t : ManagedType} (h : m.PassesOne t) : Passes m t
  | array {element : ManagedType} (h : m.PassesOne element) : Passes m (.array element)

end BindingModel

/-- Values of a declared type pass as `t`: it is public, and an enum or a class with objects that
the model has. -/
inductive Declared.PassesAs (m : BindingModel) (d : Declared) : ManagedType → Prop
  | enum {body : EnumBody} (hpublic : d.decl.visibility = .publicAccess)
    (hbody : d.decl.body = .enumBody body) (hbound : (m.enum? d.path).isSome) :
    PassesAs m d (.enum d.path)
  | object {body : ClassBody} {c : BoundClass} (hpublic : d.decl.visibility = .publicAccess)
    (hbody : d.decl.body = .classBody body) (hbound : m.class? d.path = some c)
    (hstatic : c.isStatic = false) : PassesAs m d (.object d.path)

/-! ### Names and types that can be passed -/

section

variable {decls : List Declared} {m : BindingModel} {scope : List String} {member : String}

lemma Declared.PassesAs.passesOne {d : Declared} {t : ManagedType} (h : d.PassesAs m t) :
    m.PassesOne t := by
  cases h with
  | enum _ _ hbound =>
    obtain ⟨e, he⟩ := Option.isSome_iff_exists.mp hbound
    exact .enum he
  | object _ _ hbound hstatic => exact .object hbound hstatic

lemma Declared.PassesAs.namedPath? {d : Declared} {t : ManagedType} (h : d.PassesAs m t) :
    t.namedPath? = some d.path := by
  cases h with
  | enum | object => rfl

/-- A name can be passed exactly if it has no meaning of its own and what is found by it can be. -/
lemma resolveName_eq_ok_iff {name : DottedName} {t : ManagedType} :
    resolveName decls m scope member name = .ok t ↔ name.text ∉ builtinNames ∧
      ∃ found, Declared.lookup? decls scope name = some found ∧ found.PassesAs m t := by
  constructor
  · intro h
    rw [resolveName] at h
    dsimp only at h
    split at h
    · cases h
    · rename_i hname
      refine ⟨by simpa using hname, ?_⟩
      split at h
      · cases h
      · rename_i path decl hfound
        refine ⟨⟨path, decl⟩, hfound, ?_⟩
        split at h
        · cases h
        · rename_i hpublic
          have hpublic := not_not.mp hpublic
          split at h
          · rename_i hbody
            split at h
            · rename_i hbound
              cases h
              exact .enum hpublic hbody hbound
            · cases h
          · rename_i hbody
            split at h
            · rename_i c hc
              split at h
              · cases h
              · rename_i hstatic
                cases h
                exact .object hpublic hbody hc (by simpa using hstatic)
            · cases h
          · cases h
  · rintro ⟨hname, ⟨path, decl⟩, hfound, hpasses⟩
    rw [resolveName, hfound]
    dsimp only
    rw [if_neg (by simpa using hname)]
    cases hpasses with
    | enum hpublic hbody hbound =>
      dsimp only at hpublic hbody hbound ⊢
      rw [if_neg (not_not.mpr hpublic), hbody]
      exact if_pos hbound
    | object hpublic hbody hbound hstatic =>
      dsimp only at hpublic hbody hbound ⊢
      rw [if_neg (not_not.mpr hpublic), hbody, hbound]
      exact if_neg (by simpa using hstatic)

/-- A name that can be passed means a declared type of the model. -/
lemma found_of_resolveName {name : DottedName} {t : ManagedType}
    (h : resolveName decls m scope member name = .ok t) :
    m.PassesOne t ∧ ∃ found, Declared.lookup? decls scope name = some found ∧
      t.namedPath? = some found.path := by
  obtain ⟨-, found, hfound, hpasses⟩ := resolveName_eq_ok_iff.mp h
  exact ⟨hpasses.passesOne, found, hfound, hpasses.namedPath?⟩

/-- A type is no array, or an array of arrays, or an array in one dimension. -/
lemma array_cases (expr : TypeExpr) :
    (∀ element, expr ≠ .array element) ∨ (∃ inner, expr = .array (.array inner)) ∨
      ∃ element, (∀ inner, element ≠ .array inner) ∧ expr = .array element := by
  by_cases harray : ∃ element, expr = .array element
  · obtain ⟨element, rfl⟩ := harray
    by_cases hjagged : ∃ inner, element = .array inner
    · obtain ⟨inner, rfl⟩ := hjagged
      exact Or.inr (Or.inl ⟨inner, rfl⟩)
    · exact Or.inr (Or.inr ⟨element, fun inner h => hjagged ⟨inner, h⟩, rfl⟩)
  · exact Or.inl fun element h => harray ⟨element, h⟩

lemma passes_of_resolveType {expr : TypeExpr} {t : ManagedType}
    (h : resolveType decls m scope member expr = .ok t) : m.Passes t := by
  have hone : ∀ {expr t}, (∀ inner, expr ≠ TypeExpr.array inner) →
      resolveType decls m scope member expr = .ok t → m.PassesOne t := by
    intro expr t hnot h
    cases expr with
    | primitive p => cases h; exact .primitive p
    | string => cases h; exact .string
    | named name => exact (found_of_resolveName h).1
    | array inner => exact absurd rfl (hnot inner)
    | void | generic | nullable => cases h
  rcases array_cases expr with hexpr | ⟨inner, rfl⟩ | ⟨element, helement, rfl⟩
  · exact .one (hone hexpr h)
  · cases h
  · rw [resolveType.eq_6 _ _ _ _ _ helement] at h
    obtain ⟨u, hu, rfl⟩ := map_eq_ok_iff.mp h
    exact .array (hone helement hu)

end

lemma exists_of_mem_forall₂ {α β : Type} {R : α → β → Prop} {xs : List α} {ys : List β}
    (h : List.Forall₂ R xs ys) {y : β} (hy : y ∈ ys) : ∃ x ∈ xs, R x y := by
  induction h with
  | nil => cases hy
  | @cons x y' xs ys hxy _ ih =>
    rcases List.mem_cons.mp hy with rfl | hy
    · exact ⟨x, List.mem_cons_self, hxy⟩
    · obtain ⟨x', hx', hR⟩ := ih hy
      exact ⟨x', List.mem_cons_of_mem _ hx', hR⟩

/-- Parameters passed by reference are no arrays. -/
lemma passes_of_bindParam {decls : List Declared} {m : BindingModel} {owner : TypePath}
    {label : String} {p : CandidateParam} {bound : BoundParam}
    (h : bindParam decls m owner label p = .ok bound) :
    m.Passes bound.type ∧ (bound.direction.isByRef = true → m.PassesOne bound.type) := by
  rw [bindParam] at h
  split at h
  · cases h
  · rename_i t ht
    have hpasses := passes_of_resolveType ht
    split at h
    · cases h
    · rename_i harray
      cases h
      refine ⟨hpasses, ?_⟩
      intro href
      dsimp only at href ⊢
      rcases hpasses with hone | hone
      · exact hone
      · rw [href] at harray
        exact absurd rfl harray

lemma direction_of_bindParam {decls : List Declared} {m : BindingModel} {owner : TypePath}
    {label : String} {p : CandidateParam} {bound : BoundParam}
    (h : bindParam decls m owner label p = .ok bound) : bound.direction = p.direction := by
  rw [bindParam] at h
  split at h
  · cases h
  · split at h
    · cases h
    · cases h
      rfl

namespace Candidate

lemma fst_mem_of_mem_withOrdinals (cs : List Candidate) :
    ∀ {before : List String} {c : Candidate × Nat}, c ∈ withOrdinals before cs → c.1 ∈ cs := by
  induction cs with
  | nil => intro before c h; cases h
  | cons d cs ih =>
    intro before c h
    rw [withOrdinals] at h
    rcases List.mem_cons.mp h with rfl | h
    · exact List.mem_cons_self
    · exact List.mem_cons_of_mem _ (ih h)

lemma exists_of_mem_ofAccessor? {accessor : Option Accessor} {make : Span → Candidate}
    {span : Span} {c : Candidate} (h : c ∈ ofAccessor? accessor make span) :
    ∃ span, c = make span := by
  cases accessor with
  | none => cases h
  | some a =>
    rw [ofAccessor?] at h
    split at h
    · exact ⟨_, List.mem_singleton.mp h⟩
    · cases h

/-- What a member is exported as. -/
inductive Exports (m : Member) : Candidate → Prop
  | constructor {params : List Parameter} (h : m.kind = .constructor params) (span : Span) :
    Exports m (ofConstructor params span)
  | method {params : List Parameter} {returns : TypeExpr} (h : m.kind = .method params returns)
    (span : Span) :
    Exports m ⟨m.name, m.name, .method, m.isStatic, params.map paramOf, .value returns, span⟩
  | getter {type : TypeExpr} {get set : Option Accessor} (h : m.kind = .property type get set)
    (span : Span) :
    Exports m ⟨"get_" ++ m.name, "get_" ++ m.name, .getter m.name, m.isStatic, [],
      .value type, span⟩
  | setter {type : TypeExpr} {get set : Option Accessor} (h : m.kind = .property type get set)
    (span : Span) :
    Exports m ⟨"set_" ++ m.name, "set_" ++ m.name, .setter m.name, m.isStatic,
      [⟨"value", type, .input, span⟩], .nothing, span⟩

lemma exports_of_mem_ofMember {m : Member} {c : Candidate} (hc : c ∈ ofMember m) :
    Exports m c := by
  rw [ofMember] at hc
  split at hc
  · cases hc
  · split at hc
    · rename_i hkind
      split at hc
      · cases hc
      · rw [List.mem_singleton.mp hc]
        exact .constructor hkind _
    · rename_i hkind
      rw [List.mem_singleton.mp hc]
      exact .method hkind _
    · rename_i hkind
      rcases List.mem_append.mp hc with hc | hc
      · obtain ⟨span, rfl⟩ := exists_of_mem_ofAccessor? hc
        exact .getter hkind span
      · obtain ⟨span, rfl⟩ := exists_of_mem_ofAccessor? hc
        exact .setter hkind span

/-- A constructor of objects gives back an object of its class, and is not static. -/
structure Constructs (c : Candidate) : Prop where
  kind : c.kind = .constructor
  result : c.result = .owner
  isStatic : c.isStatic = false

lemma constructs_ofConstructor (params : List Parameter) (span : Span) :
    (ofConstructor params span).Constructs := ⟨rfl, rfl, rfl⟩

end Candidate

/-- A candidate is the constructor of a class that declares none, or what a member is exported
as. -/
lemma Declared.exports_or {new : Declared} {c : Candidate × Nat} (hc : c ∈ new.candidates) :
    (∃ span, c.1 = .ofConstructor [] span) ∨
      ∃ body, new.decl.body = .classBody body ∧ ∃ m ∈ body.members, Candidate.Exports m c.1 := by
  rw [candidates] at hc
  split at hc
  · rename_i body hbody
    have hmem := Candidate.fst_mem_of_mem_withOrdinals _ hc
    rw [Candidate.ofClass] at hmem
    rcases List.mem_append.mp hmem with himplicit | hmember
    · split at himplicit
      · cases himplicit
      · exact .inl ⟨_, List.mem_singleton.mp himplicit⟩
    · obtain ⟨m, hm, hc⟩ := List.mem_flatMap.mp hmember
      exact .inr ⟨body, hbody, m, hm, Candidate.exports_of_mem_ofMember hc⟩
  · cases hc

/-- A member is exported as a constructor, or as something that gives back no object of its class
as such. -/
lemma Declared.constructs_or {new : Declared} {c : Candidate × Nat} (hc : c ∈ new.candidates) :
    c.1.Constructs ∨ c.1.kind ≠ .constructor ∧ c.1.result ≠ .owner := by
  rcases exports_or hc with ⟨span, hconstructor⟩ | ⟨body, -, m, -, hexports⟩
  · rw [hconstructor]
    exact .inl (Candidate.constructs_ofConstructor _ _)
  · generalize c.1 = candidate at hexports
    cases hexports with
    | constructor _ span => exact .inl (Candidate.constructs_ofConstructor _ _)
    | method _ span => exact .inr ⟨by simp, by simp⟩
    | getter _ span => exact .inr ⟨by simp, by simp⟩
    | setter _ span => exact .inr ⟨by simp, by simp⟩

lemma Declared.isStatic_of_owner {new : Declared} {c : Candidate × Nat}
    (hc : c ∈ new.candidates) (hresult : c.1.result = .owner) : c.1.isStatic = false := by
  rcases constructs_or hc with h | ⟨_, hnot⟩
  · exact h.isStatic
  · exact absurd hresult hnot

/-! ### The types of a bound function -/

section Assembly

variable (a : Assembly)

lemma isIntegral_underlying {e : BoundEnum} (he : e ∈ (BindingModel.ofAssembly a).enums) :
    e.underlying.isIntegral = true :=
  (spec_of_mem_enums a he).2

lemma isIntegral_of_enum? {path : TypePath} {e : BoundEnum}
    (he : (BindingModel.ofAssembly a).enum? path = some e) : e.underlying.isIntegral = true :=
  isIntegral_underlying a (BindingModel.mem_of_enum? he).1

/-- The paths of the classes of a model are read back from their texts. -/
lemma dotFree_of_mem_classes {c : BoundClass} (hc : c ∈ (BindingModel.ofAssembly a).classes) :
    c.path.DotFree := by
  have hnames : ∀ path ∈ (BindingModel.ofAssembly a).classes.map (·.path),
      nameFault? path.symbol = none := by
    rw [classPaths_ofAssembly]
    refine List.foldlRecOn (motive := fun d : Draft => ∀ path ∈ d.model.classes.map (·.path),
      nameFault? path.symbol = none) _ _ ?_ ?_
    · rw [foldl_keeps (fun d : Draft => d.model.classes) _ Draft.classes_bindEnum,
        (model_ofAssembly a).1]
      intro path hpath
      cases hpath
    · intro d hd new _
      rcases d.declareClass_cases new with hr | ⟨d', c, hr, heq, _, hname, _⟩
      · rw [hr.classes]
        exact hd
      · rw [heq, List.map_append, List.map_singleton, hr.classes]
        intro path hpath
        rcases List.mem_append.mp hpath with hpath | hpath
        · exact hd path hpath
        · rw [List.mem_singleton.mp hpath]
          exact hname
  exact TypePath.dotFree_of_nameFault? (hnames _ (List.mem_map_of_mem hc))

/-- A draft in the last pass: its types are those of the end, and every function is what a member
of one of its classes is bound as. -/
structure Draft.BindsMembers (d : Draft) : Prop where
  grows : (Draft.typesOf a).Grows d
  functions : ∀ f ∈ d.model.functions, ∃ new ∈ (Declared.ofAssembly a).1, ∃ c ∈ new.candidates,
    ((Draft.typesOf a).model.class? new.path).isSome ∧
    bindFunction (Declared.ofAssembly a).1 (Draft.typesOf a).model new.path c.1 c.2 = .ok f

variable {a}

lemma Draft.BindsMembers.bindMember {d : Draft} (h : d.BindsMembers a) {new : Declared}
    (hnew : new ∈ (Declared.ofAssembly a).1)
    (hclass : ((Draft.typesOf a).model.class? new.path).isSome) {c : Candidate × Nat}
    (hc : c ∈ new.candidates) :
    (d.bindMember (Declared.ofAssembly a).1 new.path c).BindsMembers a := by
  refine ⟨h.grows.trans (d.grows_bindMember _ _ c), ?_⟩
  rcases d.bindMember_cases (Declared.ofAssembly a).1 new.path c with hr | ⟨f, hf, _, heq⟩
  · rw [hr.functions]
    exact h.functions
  · rw [heq]
    intro g hg
    rcases List.mem_append.mp hg with hg | hg
    · exact h.functions g hg
    · rw [List.mem_singleton.mp hg]
      refine ⟨new, hnew, c, hc, hclass, ?_⟩
      rw [← hf]
      exact (bindFunction_congr h.grows.classes h.grows.enums _ _ _ _).symm

lemma Draft.BindsMembers.bindMembers {d : Draft} (h : d.BindsMembers a) {new : Declared}
    (hnew : new ∈ (Declared.ofAssembly a).1) :
    (d.bindMembers (Declared.ofAssembly a).1 new).BindsMembers a := by
  rw [d.bindMembers_eq]
  split
  · rename_i hclass
    rw [BindingModel.class?, h.grows.classes] at hclass
    exact List.foldlRecOn (motive := fun d : Draft => d.BindsMembers a) _ _ h
      fun d' h' c hc => h'.bindMember hnew hclass hc
  · exact h

lemma bindsMembers_ofAssembly : (Draft.ofAssembly a).BindsMembers a := by
  have hstart : (Draft.typesOf a).BindsMembers a := by
    refine ⟨(Draft.Registers.refl _).grows, ?_⟩
    rw [functions_typesOf]
    intro f hf
    cases hf
  exact List.foldlRecOn (motive := fun d : Draft => d.BindsMembers a) _ _ hstart
    fun d h new hnew => h.bindMembers hnew

/-- Every function of a model is what a member of a class of the model is bound as. -/
lemma exists_bindFunction {f : NativeFunction} (hf : f ∈ (BindingModel.ofAssembly a).functions) :
    ∃ new ∈ (Declared.ofAssembly a).1, ∃ c ∈ new.candidates,
      ((BindingModel.ofAssembly a).class? new.path).isSome ∧
      bindFunction (Declared.ofAssembly a).1 (BindingModel.ofAssembly a) new.path c.1 c.2 =
        .ok f := by
  obtain ⟨hgrows, hfunctions⟩ := bindsMembers_ofAssembly (a := a)
  obtain ⟨new, hnew, c, hc, hclass, hbind⟩ := hfunctions f hf
  have hclasses : (BindingModel.ofAssembly a).classes = _ := hgrows.classes
  refine ⟨new, hnew, c, hc, ?_, ?_⟩
  · rw [BindingModel.class?, hclasses]
    exact hclass
  · rw [← hbind]
    exact bindFunction_congr hgrows.classes hgrows.enums _ _ _ _

/-- The types of a bound function are passed by its model. -/
lemma passes_of_mem_functions {f : NativeFunction}
    (hf : f ∈ (BindingModel.ofAssembly a).functions) :
    (∀ p ∈ f.params, (BindingModel.ofAssembly a).Passes p.type ∧
      (p.direction.isByRef = true → (BindingModel.ofAssembly a).PassesOne p.type)) ∧
    (f.returns = .void ∨ (BindingModel.ofAssembly a).Passes f.returns) := by
  obtain ⟨new, _, c, hc, hclass, hbind⟩ := exists_bindFunction hf
  have hf := isBinding_of_bindFunction hbind
  constructor
  · intro p hp
    obtain ⟨q, _, hq⟩ := exists_of_mem_mapM _ hf.params p hp
    exact passes_of_bindParam hq
  · have hreturns := hf.returns
    unfold bindResult at hreturns
    split at hreturns
    · rename_i howner
      -- a static class would have refused the member, which is no static one
      obtain ⟨b, hb⟩ := Option.isSome_iff_exists.mp hclass
      have hstatic : b.isStatic = false := by
        by_contra hstatic
        have hany : ((BindingModel.ofAssembly a).class? new.path).any (·.isStatic) = true := by
          rw [hb]
          simpa using hstatic
        have := hf.instance_or_static hany
        rw [Declared.isStatic_of_owner hc howner] at this
        cases this
      rw [← Except.ok.inj hreturns]
      exact Or.inr (.one (.object hb hstatic))
    · exact Or.inl (Except.ok.inj hreturns).symm
    · exact Or.inl (Except.ok.inj hreturns).symm
    · exact Or.inr (passes_of_resolveType hreturns)

/-- The owner of a function is a class of its model, and a static class owns static functions
only. -/
lemma class?_owner {f : NativeFunction} (hf : f ∈ (BindingModel.ofAssembly a).functions) :
    ∃ c, (BindingModel.ofAssembly a).class? f.owner = some c ∧
      (c.isStatic = true → f.isStatic = true) := by
  obtain ⟨new, _, c, _, hclass, hbind⟩ := exists_bindFunction hf
  have hf := isBinding_of_bindFunction hbind
  obtain ⟨b, hb⟩ := Option.isSome_iff_exists.mp hclass
  rw [hf.owner, hf.isStatic]
  refine ⟨b, hb, fun hstatic => hf.instance_or_static ?_⟩
  rw [hb]
  exact hstatic

/-- No part of the path of an owner holds a dot, so the path can be read back from its text. -/
lemma dotFree_owner {f : NativeFunction} (hf : f ∈ (BindingModel.ofAssembly a).functions) :
    f.owner.DotFree := by
  obtain ⟨c, hc, _⟩ := class?_owner hf
  obtain ⟨hmem, hpath⟩ := BindingModel.mem_of_class? hc
  rw [← hpath]
  exact dotFree_of_mem_classes a hmem

/-- A constructor is not static, and returns an object of its owner. -/
lemma constructor_spec {f : NativeFunction} (hf : f ∈ (BindingModel.ofAssembly a).functions)
    (hkind : f.kind = .constructor) : f.isStatic = false ∧ f.returns = .object f.owner := by
  obtain ⟨new, _, c, hc, _, hbind⟩ := exists_bindFunction hf
  have hf := isBinding_of_bindFunction hbind
  rcases Declared.constructs_or hc with h | ⟨hnot, _⟩
  · have hreturns := hf.returns
    rw [h.result] at hreturns
    refine ⟨hf.isStatic.trans h.isStatic, ?_⟩
    rw [hf.owner]
    exact (Except.ok.inj hreturns).symm
  · exact absurd (hf.kind.symm.trans hkind) hnot

/-- A getter takes no arguments. -/
lemma params_getter {f : NativeFunction} (hf : f ∈ (BindingModel.ofAssembly a).functions)
    {property : String} (hkind : f.kind = .getter property) : f.params = [] := by
  obtain ⟨new, _, c, hc, _, hbind⟩ := exists_bindFunction hf
  have hf := isBinding_of_bindFunction hbind
  have hparams := hf.params
  have hkind := hf.kind.symm.trans hkind
  rcases Declared.exports_or hc with ⟨span, hconstructor⟩ | ⟨_, -, _, -, hexports⟩
  · rw [hconstructor] at hkind
    cases hkind
  · generalize c.1 = candidate at hexports hparams hkind
    cases hexports with
    | getter => exact (Except.ok.inj hparams).symm
    | constructor | method | setter => cases hkind

/-- A setter takes one argument, which is not passed by reference, and returns nothing. -/
lemma setter_spec {f : NativeFunction} (hf : f ∈ (BindingModel.ofAssembly a).functions)
    {property : String} (hkind : f.kind = .setter property) :
    f.returns = .void ∧ ∃ p, f.params = [p] ∧ p.direction = .input := by
  obtain ⟨new, _, c, hc, _, hbind⟩ := exists_bindFunction hf
  have hf := isBinding_of_bindFunction hbind
  have hparams := hf.params
  have hreturns := hf.returns
  have hkind := hf.kind.symm.trans hkind
  rcases Declared.exports_or hc with ⟨span, hconstructor⟩ | ⟨_, -, m, -, hexports⟩
  · rw [hconstructor] at hkind
    cases hkind
  · generalize c.1 = candidate at hexports hparams hreturns hkind
    cases hexports with
    | @setter type _ _ _ span =>
      refine ⟨(Except.ok.inj hreturns).symm, ?_⟩
      rw [List.mapM_cons] at hparams
      cases hbound : bindParam (Declared.ofAssembly a).1 (BindingModel.ofAssembly a) new.path
          (memberLabel new.path ("set_" ++ m.name)) ⟨"value", type, .input, span⟩ with
      | error e => rw [hbound] at hparams; cases hparams
      | ok p =>
        rw [hbound] at hparams
        exact ⟨p, (Except.ok.inj hparams).symm, direction_of_bindParam hbound⟩
    | constructor | method | getter => cases hkind

end Assembly

end Interop.Model
