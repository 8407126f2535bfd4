/-
# The two accessors of a property

The getter of a property gives back a value of the type of the property, and the setter takes one.
Each resolves the type on its own way: as that of a result (`toOption_bindResult_value`), or as
that of a parameter (`toOption_mapM_value`).  Both come to what the type means where it is written
(`typeMeant?`), which does not depend on the member that is named in errors.

The ways part at `void`, which is a result and no parameter: a property of that type has a getter
that gives back nothing, and no setter (`void_property_half_bound`).

Main result: `accessors_agree`.
-/
import Interop.Proofs.Model.Ordinals
import Interop.Proofs.Model.Reports
import Interop.Proofs.Model.TypeClosure

namespace Interop.Model

open Source

/-! ### Types as results and as parameters -/

/-- What a type means where it is written, if values of it can be passed. -/
def typeMeant? (decls : List Declared) (m : BindingModel) (scope : List String)
    (type : TypeExpr) : Option ManagedType :=
  (resolveType decls m scope "" type).toOption

section Types

variable {decls : List Declared} {m : BindingModel} {scope : List String} {type : TypeExpr}

lemma toOption_resolveName (label label' : String) (name : DottedName) :
    (resolveName decls m scope label name).toOption =
      (resolveName decls m scope label' name).toOption := by
  simp only [resolveName]
  split
  · rfl
  · split
    · rfl
    · split
      · rfl
      · split
        · split <;> rfl
        · split
          · split <;> rfl
          · rfl
        · rfl

/-- What a type means does not depend on the member that its faults are put to the account of. -/
lemma toOption_resolveType (label : String) :
    (resolveType decls m scope label type).toOption = typeMeant? decls m scope type := by
  unfold typeMeant?
  fun_induction resolveType decls m scope label type with
  | case4 name => exact toOption_resolveName label "" name
  | case6 element hjagged ih =>
    rw [resolveType, toOption_map, toOption_map, ih]
    exact hjagged
  | _ => rfl

lemma passes_of_typeMeant? {t : ManagedType} (h : typeMeant? decls m scope type = some t) :
    m.Passes t :=
  passes_of_resolveType (eq_ok_of_toOption h)

variable {owner : TypePath} {label : String}

lemma toOption_bindResult_value (hvoid : type ≠ .void) :
    (bindResult decls m owner label (.value type)).toOption =
      typeMeant? decls m owner.scope type := by
  rw [← toOption_resolveType label]
  cases type with
  | void => exact absurd rfl hvoid
  | _ => rfl

/-- The value that a setter takes. -/
lemma toOption_mapM_value (span : Span) :
    ([⟨"value", type, .input, span⟩].mapM (bindParam decls m owner label)).toOption =
      (typeMeant? decls m owner.scope type).map fun t => [⟨"value", t, .input⟩] := by
  rw [← toOption_resolveType label, List.mapM_cons, bindParam]
  cases resolveType decls m owner.scope label type <;> rfl

/-- A candidate has no function because of a type: that of a parameter, or of its result. -/
lemma typeRefused_iff {c : Candidate} {ordinal : Nat} :
    (∃ e, bindFunction decls m owner c ordinal = .error e ∧
      TypeRefused (memberLabel owner c.member) e.fault) ↔
    ((m.class? owner).any (·.isStatic) = true → c.isStatic = true) ∧
      ((c.params.mapM (bindParam decls m owner (memberLabel owner c.member))).toOption = none ∨
        (bindResult decls m owner (memberLabel owner c.member) c.result).toOption = none) := by
  have hbinds := binds_bindFunction decls m owner c ordinal
  generalize bindFunction decls m owner c ordinal = result at hbinds ⊢
  cases hbinds with
  | static hstatic hinstance =>
    refine iff_of_false (by rintro ⟨e, ⟨⟩, ⟨⟩⟩) ?_
    rintro ⟨hallowed, -⟩
    cases hinstance.symm.trans (hallowed hstatic)
  | @params e hstatic hparams =>
    obtain ⟨p, _, hp⟩ := exists_of_mapM_error _ hparams
    exact iff_of_true ⟨e, rfl, bindParam_refused hp⟩ ⟨hstatic, .inl (by rw [hparams]; rfl)⟩
  | returns hstatic _ hreturns =>
    exact iff_of_true ⟨_, rfl, bindResult_refused hreturns⟩
      ⟨hstatic, .inr (by rw [hreturns]; rfl)⟩
  | symbol _ hparams hreturns _ =>
    refine iff_of_false (by rintro ⟨e, ⟨⟩, ⟨⟩⟩) ?_
    simp [hparams, hreturns, Except.toOption]
  | bound _ hparams hreturns _ =>
    refine iff_of_false (by rintro ⟨e, ⟨⟩, -⟩) ?_
    simp [hparams, hreturns, Except.toOption]

end Types

/-! ### What a property is exported as -/

namespace Candidate

/-- The getter of a property. -/
def ofGetter (p : Member) (type : TypeExpr) (get : Accessor) : Candidate :=
  ⟨"get_" ++ p.name, "get_" ++ p.name, .getter p.name, p.isStatic, [], .value type,
    p.span.merge get.span⟩

/-- The setter of a property. -/
def ofSetter (p : Member) (type : TypeExpr) (set : Accessor) : Candidate :=
  ⟨"set_" ++ p.name, "set_" ++ p.name, .setter p.name, p.isStatic,
    [⟨"value", type, .input, p.span.merge set.span⟩], .nothing, p.span.merge set.span⟩

end Candidate

/-- A candidate is the `k`-th exported member of a declaration. -/
def Declared.ExportsAt (new : Declared) (k : Nat) (c : Candidate) : Prop :=
  ∃ ordinal, new.candidates[k]? = some (c, ordinal)

/-- A public property of a bound class, with its type and its accessors, which are both public. -/
structure ReadWrite (a : Assembly) (new : Declared) (p : Member) (type : TypeExpr)
    (get set : Accessor) : Prop where
  declared : new ∈ (Declared.ofAssembly a).1
  bound : ((BindingModel.ofAssembly a).class? new.path).isSome
  member : ∃ body, new.decl.body = .classBody body ∧ p ∈ body.members
  visibility : p.visibility = .publicAccess
  kind : p.kind = .property type (some get) (some set)
  getter : get.visibility = .publicAccess
  setter : set.visibility = .publicAccess

/-- The `k`-th exported member of a bound class has a type that cannot be passed: its step reports
this. -/
def RefusedForType (a : Assembly) (new : Declared) (k : Nat) : Prop :=
  ((Draft.typesOf a).model.class? new.path).isSome ∧
  ∃ before after c e, (Declared.ofAssembly a).1 = before ++ new :: after ∧
    new.candidates[k]? = some c ∧
    ((Draft.atMember a before new k).bindMember (Declared.ofAssembly a).1 new.path
      c).model.errors = (Draft.atMember a before new k).model.errors ++ [e] ∧
    TypeRefused (memberLabel new.path c.1.member) e.fault

section Assembly

variable {a : Assembly} {new : Declared} {k : Nat} {c : Candidate}

lemma refusedForType_iff (hnew : new ∈ (Declared.ofAssembly a).1)
    (hclass : ((Draft.typesOf a).model.class? new.path).isSome) (hc : new.ExportsAt k c) :
    RefusedForType a new k ↔
      (((Draft.typesOf a).model.class? new.path).any (·.isStatic) = true → c.isStatic = true) ∧
      ((c.params.mapM (bindParam (Declared.ofAssembly a).1 (Draft.typesOf a).model new.path
          (memberLabel new.path c.member))).toOption = none ∨
        (bindResult (Declared.ofAssembly a).1 (Draft.typesOf a).model new.path
          (memberLabel new.path c.member) c.result).toOption = none) := by
  obtain ⟨ordinal, hc⟩ := hc
  rw [← @typeRefused_iff _ _ _ c ordinal]
  constructor
  · rintro ⟨-, before, after, c', e, -, hc', hstep, hfault⟩
    obtain rfl := Option.some.inj (hc'.symm.trans hc)
    refine ⟨e, ?_, hfault⟩
    rw [← bindFunction_atMember before k (c, ordinal)]
    cases hb : bindFunction (Declared.ofAssembly a).1 (Draft.atMember a before new k).model
        new.path c ordinal with
    | error e' =>
      rw [Draft.bindMember_error hb] at hstep
      obtain rfl : e' = e := by simpa [Draft.report] using hstep
      rfl
    | ok f =>
      -- what is reported of a function is a name, not a type
      rw [Draft.bindMember_ok hb] at hstep
      rcases (Draft.atMember a before new k).addFunction_cases f with
        ⟨_, _, _, _, _, heq⟩ | ⟨_, heq⟩
      · rw [heq] at hstep
        obtain rfl : _ = e := by simpa [Draft.report] using hstep
        cases hfault
      · rw [heq] at hstep
        simp [Draft.claimAll] at hstep
  · rintro ⟨e, hb, hfault⟩
    obtain ⟨before, after, hsplit⟩ := List.append_of_mem hnew
    refine ⟨hclass, before, after, _, e, hsplit, hc, ?_, hfault⟩
    rw [← bindFunction_atMember before k (c, ordinal)] at hb
    rw [Draft.bindMember_error hb]
    rfl

namespace ReadWrite

variable {p : Member} {type : TypeExpr} {get set : Accessor}

lemma class?_typesOf (h : ReadWrite a new p type get set) :
    ((Draft.typesOf a).model.class? new.path).isSome := by
  have hbound := h.bound
  have hclasses : (BindingModel.ofAssembly a).classes = (Draft.typesOf a).model.classes :=
    bindsMembers_ofAssembly.grows.classes
  rwa [BindingModel.class?, hclasses] at hbound

/-- Both accessors are exported. -/
lemma exported (h : ReadWrite a new p type get set) :
    (∃ k, new.ExportsAt k (.ofGetter p type get)) ∧
      ∃ l, new.ExportsAt l (.ofSetter p type set) := by
  obtain ⟨body, hbody, hp⟩ := h.member
  have hexports : ∀ c ∈ Candidate.ofMember p, ∃ k, new.ExportsAt k c := by
    intro c hc
    have hmem : c ∈ new.candidates.map (·.1) := by
      simp only [Declared.candidates, hbody]
      rw [Candidate.map_fst_withOrdinals]
      exact List.mem_append_right _ (List.mem_flatMap.mpr ⟨p, hp, hc⟩)
    obtain ⟨⟨_, ordinal⟩, hnumbered, rfl⟩ := List.mem_map.mp hmem
    obtain ⟨k, hk⟩ := List.mem_iff_getElem?.mp hnumbered
    exact ⟨k, ordinal, hk⟩
  have hmember : Candidate.ofMember p = [.ofGetter p type get, .ofSetter p type set] := by
    simp [Candidate.ofMember, Candidate.ofAccessor?, h.visibility, h.kind, h.getter, h.setter,
      Candidate.ofGetter, Candidate.ofSetter]
  exact ⟨hexports _ (by simp [hmember]), hexports _ (by simp [hmember])⟩

/-- The way of a getter. -/
lemma refused_getter (h : ReadWrite a new p type get set) (hvoid : type ≠ .void)
    (hk : new.ExportsAt k (.ofGetter p type get)) :
    RefusedForType a new k ↔
      (((Draft.typesOf a).model.class? new.path).any (·.isStatic) = true → p.isStatic = true) ∧
      typeMeant? (Declared.ofAssembly a).1 (Draft.typesOf a).model new.path.scope type = none := by
  rw [refusedForType_iff h.declared h.class?_typesOf hk]
  simp only [Candidate.ofGetter]
  rw [toOption_bindResult_value hvoid]
  refine and_congr_right fun _ => or_iff_right ?_
  simp [pure, Except.pure, Except.toOption]

/-- A getter that gives back nothing has no type to be refused for. -/
lemma not_refused_getter_void (h : ReadWrite a new p .void get set)
    (hk : new.ExportsAt k (.ofGetter p .void get)) : ¬ RefusedForType a new k := by
  rw [refusedForType_iff h.declared h.class?_typesOf hk]
  simp [Candidate.ofGetter, bindResult, pure, Except.pure, Except.toOption]

/-- The way of a setter. -/
lemma refused_setter (h : ReadWrite a new p type get set)
    (hk : new.ExportsAt k (.ofSetter p type set)) :
    RefusedForType a new k ↔
      (((Draft.typesOf a).model.class? new.path).any (·.isStatic) = true → p.isStatic = true) ∧
      typeMeant? (Declared.ofAssembly a).1 (Draft.typesOf a).model new.path.scope type = none := by
  rw [refusedForType_iff h.declared h.class?_typesOf hk]
  simp only [Candidate.ofSetter]
  rw [toOption_mapM_value, Option.map_eq_none_iff]
  refine and_congr_right fun _ => or_iff_left ?_
  simp [bindResult, Except.toOption]

end ReadWrite

lemma returns_getter {f : NativeFunction} {p : Member} {type : TypeExpr} {get : Accessor}
    (hvoid : type ≠ .void) (hk : new.ExportsAt k (.ofGetter p type get)) (h : BoundAs a new k f) :
    typeMeant? (Declared.ofAssembly a).1 (Draft.typesOf a).model new.path.scope type =
      some f.returns := by
  obtain ⟨ordinal, hk⟩ := hk
  obtain ⟨-, c, hc, hbinding⟩ := h.isBinding
  obtain rfl := Option.some.inj (hk.symm.trans hc)
  rw [← toOption_bindResult_value hvoid]
  exact congrArg Except.toOption hbinding.returns

lemma params_setter {f : NativeFunction} {p : Member} {type : TypeExpr} {set : Accessor}
    (hk : new.ExportsAt k (.ofSetter p type set)) (h : BoundAs a new k f) :
    (typeMeant? (Declared.ofAssembly a).1 (Draft.typesOf a).model new.path.scope type).map
      (fun t => [⟨"value", t, .input⟩]) = some f.params := by
  obtain ⟨ordinal, hk⟩ := hk
  obtain ⟨-, c, hc, hbinding⟩ := h.isBinding
  obtain rfl := Option.some.inj (hk.symm.trans hc)
  rw [← toOption_mapM_value (p.span.merge set.span)]
  exact congrArg Except.toOption hbinding.params

/-- What gives back nothing, of the getters, is the getter of a property of type `void`. -/
lemma void_of_getter {f : NativeFunction} (hf : f ∈ (BindingModel.ofAssembly a).functions)
    {name : String} (hkind : f.kind = .getter name) (hreturns : f.returns = .void) :
    ∃ new ∈ (Declared.ofAssembly a).1, ∃ body, new.decl.body = .classBody body ∧
      ∃ p ∈ body.members, p.name = name ∧ ∃ get set, p.kind = .property .void get set := by
  obtain ⟨new, hnew, c, hc, _, hbind⟩ := exists_bindFunction hf
  have hbinding := isBinding_of_bindFunction hbind
  have hresult := hbinding.returns
  have hkind := hbinding.kind.symm.trans hkind
  rcases Declared.exports_or hc with ⟨span, hconstructor⟩ | ⟨body, hbody, p, hp, hexports⟩
  · rw [hconstructor] at hkind
    cases hkind
  · generalize c.1 = candidate at hexports hresult hkind
    cases hexports with
    | @getter type get set hproperty span =>
      cases hkind
      by_cases hvoid : type = .void
      · rw [hvoid] at hproperty
        exact ⟨new, hnew, body, hbody, p, hp, rfl, get, set, hproperty⟩
      · have hmeant := congrArg Except.toOption hresult
        rw [toOption_bindResult_value hvoid] at hmeant
        exact absurd hreturns (passes_of_typeMeant? hmeant).ne_void
    | constructor | method | setter => cases hkind

end Assembly

/-- The accessors of a property agree:

Of a public property of a bound class whose accessors are both public, and whose type is not
written `void`, both accessors are exported members.  The type of the property is refused for the
getter exactly if it is refused for the setter.  Where the getter is bound, it gives back
something; and where the setter is bound too, what it takes is of the type that the getter gives
back.  Of all getters of a model, only those of properties of type `void` give back nothing. -/
theorem accessors_agree (a : Assembly) :
    (∀ new p type get set, ReadWrite a new p type get set → type ≠ .void →
      (∃ k, new.ExportsAt k (.ofGetter p type get)) ∧
      (∃ l, new.ExportsAt l (.ofSetter p type set)) ∧
      ∀ k l, new.ExportsAt k (.ofGetter p type get) → new.ExportsAt l (.ofSetter p type set) →
        (RefusedForType a new k ↔ RefusedForType a new l) ∧
        ∀ f, BoundAs a new k f → f.returns ≠ .void ∧
          ∀ g, BoundAs a new l g → g.params = [⟨"value", f.returns, .input⟩]) ∧
    ∀ f ∈ (BindingModel.ofAssembly a).functions, ∀ name, f.kind = .getter name →
      f.returns = .void →
        ∃ new ∈ (Declared.ofAssembly a).1, ∃ body, new.decl.body = .classBody body ∧
          ∃ p ∈ body.members, p.name = name ∧ ∃ get set, p.kind = .property .void get set := by
  refine ⟨?_, fun f hf name => void_of_getter hf⟩
  intro new p type get set h hvoid
  refine ⟨h.exported.1, h.exported.2, ?_⟩
  intro k l hk hl
  refine ⟨(h.refused_getter hvoid hk).trans (h.refused_setter hl).symm, ?_⟩
  intro f hf
  have hmeant := returns_getter hvoid hk hf
  refine ⟨(passes_of_typeMeant? hmeant).ne_void, ?_⟩
  intro g hg
  have hparams := params_setter hl hg
  rw [hmeant] at hparams
  exact (Option.some.inj hparams).symm

/-- A public accessor. -/
def publicAccessor : Accessor := ⟨.publicAccess, .nowhere⟩

/-- A property with two public accessors. -/
def readWriteProperty (name : String) (type : TypeExpr) : Member :=
  ⟨name, .property type (some publicAccessor) (some publicAccessor), .publicAccess, false, .nowhere⟩

/-- A class with some members. -/
def classOf (members : List Member) : TypeDecl :=
  ⟨"T", .classBody ⟨none, members⟩, .publicAccess, false, [], .nowhere⟩

lemma readWrite_classOf {name : String} {type : TypeExpr} {members : List Member}
    (h : readWriteProperty name type ∈ members)
    (hclass : ((BindingModel.ofAssembly ⟨[.declared (classOf members)]⟩).class?
      ⟨[], "T"⟩).isSome) :
    ReadWrite ⟨[.declared (classOf members)]⟩ ⟨⟨[], "T"⟩, classOf members⟩
      (readWriteProperty name type) type publicAccessor publicAccessor :=
  ⟨List.mem_singleton_self _, hclass, ⟨_, rfl, h⟩, rfl, rfl, rfl, rfl⟩

/-- Of two properties, the array is given back and taken, and the other type is refused twice. -/
theorem accessors_agree_two_properties :
    let members := [readWriteProperty "P" (.array .string),
      readWriteProperty "Q" (.named ⟨["decimal"], .nowhere⟩)]
    let a : Assembly := ⟨[.declared (classOf members)]⟩
    let new : Declared := ⟨⟨[], "T"⟩, classOf members⟩
    (∃ f g, BoundAs a new 1 f ∧ BoundAs a new 2 g ∧ f.returns = .array .string ∧
      g.params = [⟨"value", .array .string, .input⟩]) ∧
    RefusedForType a new 3 ∧ RefusedForType a new 4 := by
  intro members a new
  have hclass : ((BindingModel.ofAssembly a).class? ⟨[], "T"⟩).isSome := by decide +kernel
  obtain ⟨hagree, -⟩ := accessors_agree a
  constructor
  · let f : NativeFunction := ⟨"T_get_P", ⟨[], "T"⟩, "get_P", .getter "P", false, 0, [],
      .array .string, .nowhere⟩
    let g : NativeFunction := ⟨"T_set_P", ⟨[], "T"⟩, "set_P", .setter "P", false, 0,
      [⟨"value", .array .string, .input⟩], .void, .nowhere⟩
    have hf : BoundAs a new 1 f := ⟨by decide +kernel, [], [], _, rfl, rfl, by decide +kernel⟩
    have hg : BoundAs a new 2 g := ⟨by decide +kernel, [], [], _, rfl, rfl, by decide +kernel⟩
    obtain ⟨-, -, hpair⟩ :=
      hagree _ _ _ _ _ (readWrite_classOf List.mem_cons_self hclass) (by simp)
    obtain ⟨-, hparams⟩ := (hpair 1 2 ⟨0, rfl⟩ ⟨0, rfl⟩).2 f hf
    exact ⟨f, g, hf, hg, rfl, hparams g hg⟩
  · have hgetter : RefusedForType a new 3 :=
      ⟨by decide +kernel, [], [], _, ⟨.unsupportedType "T::get_Q" "decimal" .builtin, .nowhere⟩,
        rfl, rfl, by decide +kernel, .unsupported _ _⟩
    obtain ⟨-, -, hpair⟩ := hagree _ _ _ _ _
      (readWrite_classOf (List.mem_cons_of_mem _ (List.mem_singleton_self _)) hclass) (by simp)
    exact ⟨hgetter, (hpair 3 4 ⟨0, rfl⟩ ⟨0, rfl⟩).1.mp hgetter⟩

/-- A property of type `void` has a getter, which gives back nothing, and its setter is refused for
the type. -/
theorem void_property_half_bound :
    let p := readWriteProperty "P" .void
    let a : Assembly := ⟨[.declared (classOf [p])]⟩
    let new : Declared := ⟨⟨[], "T"⟩, classOf [p]⟩
    ReadWrite a new p .void publicAccessor publicAccessor ∧
      new.ExportsAt 1 (.ofGetter p .void publicAccessor) ∧
      new.ExportsAt 2 (.ofSetter p .void publicAccessor) ∧
      (∃ f, BoundAs a new 1 f ∧ f.returns = .void) ∧
      ¬ RefusedForType a new 1 ∧ RefusedForType a new 2 := by
  intro p a new
  have h : ReadWrite a new p .void publicAccessor publicAccessor :=
    readWrite_classOf (List.mem_singleton_self _) (by decide +kernel)
  have hgetter : new.ExportsAt 1 (.ofGetter p .void publicAccessor) := ⟨0, rfl⟩
  have hsetter : new.ExportsAt 2 (.ofSetter p .void publicAccessor) := ⟨0, rfl⟩
  let f : NativeFunction := ⟨"T_get_P", ⟨[], "T"⟩, "get_P", .getter "P", false, 0, [], .void,
    .nowhere⟩
  have hf : BoundAs a new 1 f := ⟨by decide +kernel, [], [], _, rfl, rfl, by decide +kernel⟩
  refine ⟨h, hgetter, hsetter, ⟨f, hf, rfl⟩, h.not_refused_getter_void hgetter, ?_⟩
  exact (h.refused_setter hsetter).mpr ⟨by decide +kernel, rfl⟩

end Interop.Model
