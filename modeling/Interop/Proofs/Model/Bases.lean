/-
# Bases

While an assembly is bound, the bases of its classes are added class by class, and one that would
lead back to its class is refused.  So no class is its own ancestor, and what can stand in for what
is a partial order.

A cycle that a refused base would have closed can still be seen in the finished model: it is there
as soon as the base is added after all (`BindingModel.setBase`).

Main result: `bases_form_order`.
-/
import Interop.Proofs.Model.Derives
import Interop.Proofs.Model.Reports
import Interop.Proofs.Model.TypeClosure

namespace Interop.Model

open Source

namespace BindingModel

/-! ### The base that a class may take -/

variable {m : BindingModel} {decls : List Declared} {path : TypePath} {decl : TypeDecl}
  {name : DottedName}

/-- A base is refused as circular if it leads to the class. -/
lemma of_baseFor_circular {p : TypePath} {text : String}
    (h : m.baseFor decls path decl name = .error (.invalidBase p text .circular)) :
    p = path ∧ decl.isStatic = false ∧
      ∃ found, Declared.lookup? decls path.scope name = some found ∧
      text = found.path.dotted ∧ m.isAssignable found.path path = true := by
  rw [baseFor] at h
  split at h
  · cases h
  · rename_i hstatic
    split at h
    · cases h
    · rename_i found hfound
      dsimp only at h
      split at h
      · split at h
        · cases h
        · split at h
          · cases h
          · split at h
            · rename_i hleads
              cases h
              exact ⟨rfl, by simpa using hstatic, found, hfound, rfl, hleads⟩
            · cases h
      · cases h

/-- A class that is not static takes the base that it names, unless that leads back to the class,
or is a static class, or no class of the model. -/
lemma baseFor_cases {found : Declared} (hstatic : decl.isStatic = false)
    (hfound : Declared.lookup? decls path.scope name = some found) :
    (m.baseFor decls path decl name = .ok found.path ∧ m.static? found.path = some false ∧
      m.isAssignable found.path path = false) ∨
    m.baseFor decls path decl name = .error (.invalidBase path found.path.dotted .circular) ∨
    (∃ fault, m.baseFor decls path decl name = .error fault) ∧
      (m.static? found.path ≠ some false ∨ ∀ body, found.decl.body ≠ .classBody body) := by
  rw [baseFor, if_neg (by simp [hstatic]), hfound]
  dsimp only
  cases hbody : found.decl.body with
  | structBody | enumBody => exact Or.inr (Or.inr ⟨⟨_, rfl⟩, Or.inr (by simp)⟩)
  | classBody body =>
    dsimp only
    cases hc : m.class? found.path with
    | none => exact Or.inr (Or.inr ⟨⟨_, rfl⟩, Or.inl (by simp [static?, hc])⟩)
    | some c =>
      dsimp only
      split
      · rename_i hs
        exact Or.inr (Or.inr ⟨⟨_, rfl⟩, Or.inl (by simp [static?, hc, hs])⟩)
      · rename_i hs
        split
        · exact Or.inr (Or.inl rfl)
        · rename_i hleads
          exact Or.inl ⟨rfl, by simpa [static?, hc] using hs, by simpa using hleads⟩

end BindingModel

/-! ### The pass over the bases -/

/-- The base that a declared class names. -/
def Declared.baseName? (new : Declared) : Option DottedName :=
  match new.decl.body with
  | .classBody body => body.base
  | _ => none

/-- A declared class names a declaration as its base. -/
structure Declared.Names (decls : List Declared) (new : Declared) (name : DottedName)
    (found : Declared) : Prop where
  named : new.baseName? = some name
  lookup : Declared.lookup? decls new.path.scope name = some found

lemma Declared.exists_body_of_baseName? {new : Declared} {name : DottedName}
    (h : new.baseName? = some name) :
    ∃ members, new.decl.body = .classBody ⟨some name, members⟩ := by
  rw [baseName?] at h
  cases hbody : new.decl.body with
  | classBody body =>
    rw [hbody] at h
    exact ⟨body.members, by rw [← h]⟩
  | structBody | enumBody =>
    rw [hbody] at h
    cases h

lemma Declared.mem_of_lookup? {decls : List Declared} {scope : List String} {name : DottedName}
    {found : Declared} (h : lookup? decls scope name = some found) : found ∈ decls := by
  have hfrom : ∀ depth, lookupFrom decls scope name.segments depth = some found →
      found ∈ decls := by
    intro depth
    induction depth with
    | zero => exact List.mem_of_find?_eq_some
    | succ depth ih =>
      intro h
      rcases Option.or_eq_some_iff.mp h with h | ⟨_, h⟩
      · exact List.mem_of_find?_eq_some h
      · exact ih h
  exact hfrom _ h

namespace Draft

/-- A step over the bases does nothing unless the declaration is a bound class that names a base;
then it sets the base or reports why not. -/
lemma resolveBase_spec (decls : List Declared) (d : Draft) (new : Declared) :
    d.resolveBase decls new = d ∨
    ∃ name members, new.decl.body = .classBody ⟨some name, members⟩ ∧
      (d.model.class? new.path).isSome ∧
      ((∃ base, d.model.baseFor decls new.path new.decl name = .ok base ∧
          d.resolveBase decls new = { d with model := d.model.setBase new.path base }) ∨
        ∃ fault, d.model.baseFor decls new.path new.decl name = .error fault ∧
          d.resolveBase decls new = d.report fault name.span) := by
  obtain ⟨path, decl⟩ := new
  rw [resolveBase]
  dsimp only
  split
  · rename_i name members hbody
    split
    · rename_i hclass
      refine Or.inr ⟨name, members, hbody, hclass, ?_⟩
      cases hbase : d.model.baseFor decls path decl name with
      | ok base => exact Or.inl ⟨base, rfl, rfl⟩
      | error fault => exact Or.inr ⟨fault, rfl, rfl⟩
    · exact Or.inl rfl
  · exact Or.inl rfl

/-- At a bound class that names a base, the step does what `BindingModel.baseFor` says. -/
lemma resolveBase_eq (decls : List Declared) {d : Draft} {new : Declared} {name : DottedName}
    {members : List Member} (hbody : new.decl.body = .classBody ⟨some name, members⟩)
    (hclass : (d.model.class? new.path).isSome) :
    (∀ base, d.model.baseFor decls new.path new.decl name = .ok base →
      d.resolveBase decls new = { d with model := d.model.setBase new.path base }) ∧
    ∀ fault, d.model.baseFor decls new.path new.decl name = .error fault →
      d.resolveBase decls new = d.report fault name.span := by
  obtain ⟨path, decl⟩ := new
  simp only at hbody hclass
  constructor
  · intro base h
    simp only [resolveBase, hbody, hclass, h, if_true]
  · intro fault h
    simp only [resolveBase, hbody, hclass, h, if_true]

lemma static?_resolveBase (decls : List Declared) (d : Draft) (new : Declared) :
    (d.resolveBase decls new).model.static? = d.model.static? := by
  rcases d.resolveBase_cases decls new with hr | ⟨base, heq⟩
  · exact BindingModel.static?_congr hr.classes
  · rw [heq]
    exact BindingModel.static?_setBase new.path base

lemma base?_resolveBase_of_ne (decls : List Declared) (d : Draft) (new : Declared) {p : TypePath}
    (h : p ≠ new.path) : (d.resolveBase decls new).model.base? p = d.model.base? p := by
  rcases d.resolveBase_cases decls new with hr | ⟨base, heq⟩
  · rw [BindingModel.base?_congr hr.classes]
  · rw [heq]
    exact BindingModel.base?_setBase_of_ne h

lemma errors_resolveBase (decls : List Declared) (d : Draft) (new : Declared) :
    ∀ e ∈ d.model.errors, e ∈ (d.resolveBase decls new).model.errors := by
  rcases d.resolveBase_cases decls new with hr | ⟨base, heq⟩
  · exact hr.errors
  · rw [heq]
    exact fun _ he => he

/-- The steps over other classes do not touch the base of a class. -/
lemma base?_foldl_resolveBase (decls after : List Declared) (d : Draft) {p : TypePath}
    (h : p ∉ after.map (·.path)) :
    (after.foldl (resolveBase decls) d).model.base? p = d.model.base? p :=
  List.foldlRecOn (motive := fun d' : Draft => d'.model.base? p = d.model.base? p) after _ rfl
    fun d' hd' new hnew => (base?_resolveBase_of_ne decls d' new fun hp =>
      h (List.mem_map.mpr ⟨new, hnew, hp.symm⟩)).trans hd'

/-- The pass over the bases keeps errors. -/
lemma errors_foldl_resolveBase (decls after : List Declared) (d : Draft) :
    ∀ e ∈ d.model.errors, e ∈ (after.foldl (resolveBase decls) d).model.errors :=
  List.foldlRecOn (motive := fun d' : Draft => ∀ e ∈ d.model.errors, e ∈ d'.model.errors) after _
    (fun _ he => he) fun d' hd' new _ e he => errors_resolveBase decls d' new e (hd' e he)

/-- An error that the pass over the bases added was added at one of its steps. -/
lemma exists_step_of_mem_errors (decls : List Declared) {e : BindingError} (news : List Declared) :
    ∀ d : Draft, e ∉ d.model.errors → e ∈ (news.foldl (resolveBase decls) d).model.errors →
      ∃ before new after, news = before ++ new :: after ∧
        ∃ name members, new.decl.body = .classBody ⟨some name, members⟩ ∧
          let d' := before.foldl (resolveBase decls) d
          (d'.model.class? new.path).isSome ∧
          d'.model.baseFor decls new.path new.decl name = .error e.fault ∧ e.span = name.span ∧
          d'.resolveBase decls new = d'.report e.fault e.span := by
  induction news with
  | nil => exact fun d hnot he => absurd he hnot
  | cons new news ih =>
    intro d hnot he
    by_cases hhere : e ∈ (d.resolveBase decls new).model.errors
    · refine ⟨[], new, news, rfl, ?_⟩
      rcases d.resolveBase_spec decls new with heq |
        ⟨name, members, hbody, hclass, ⟨base, _, heq⟩ | ⟨fault, hfault, heq⟩⟩
      · rw [heq] at hhere
        exact absurd hhere hnot
      · rw [heq] at hhere
        exact absurd hhere hnot
      · rw [heq] at hhere
        have hlast := (List.mem_append.mp hhere).resolve_left hnot
        obtain rfl := List.mem_singleton.mp hlast
        exact ⟨name, members, hbody, hclass, hfault, rfl, heq⟩
    · obtain ⟨before, new', after, rfl, h⟩ := ih _ hhere he
      exact ⟨new :: before, new', after, rfl, h⟩

/-- The draft with the classes of an assembly and no bases yet. -/
def unbased (a : Assembly) : Draft :=
  let decls := (Declared.ofAssembly a).1
  decls.foldl declareClass (decls.foldl bindEnum (Declared.ofAssembly a).2)

/-- A class is static if its declaration is, and has no base at first. -/
lemma mem_classes_unbased (a : Assembly) : ∀ c ∈ (unbased a).model.classes,
    c.base = none ∧ ∃ new ∈ (Declared.ofAssembly a).1, new.path = c.path ∧
      new.decl.isStatic = c.isStatic ∧ ∃ body, new.decl.body = .classBody body := by
  unfold unbased
  refine List.foldlRecOn (motive := fun d : Draft => ∀ c ∈ d.model.classes, c.base = none ∧
    ∃ new ∈ (Declared.ofAssembly a).1, new.path = c.path ∧ new.decl.isStatic = c.isStatic ∧
      ∃ body, new.decl.body = .classBody body) _ _ ?_ ?_
  · rw [foldl_keeps (fun d : Draft => d.model.classes) _ classes_bindEnum,
      (model_ofAssembly a).1]
    nofun
  · intro d hd new hnew
    have hclaim : ∀ symbol claimant span,
        (d.claim symbol claimant span).1.model.classes = d.model.classes :=
      fun _ _ _ => (d.registers_claim _ _ _).classes
    obtain ⟨path, decl⟩ := new
    rw [declareClass]
    dsimp only
    split
    · exact hd
    · split
      · exact hd
      · exact hd
      · rename_i body hbody
        split
        · intro c hc
          rcases List.mem_append.mp hc with hc | hc
          · exact hd c (hclaim _ _ _ ▸ hc)
          · rw [List.mem_singleton.mp hc]
            exact ⟨rfl, _, hnew, rfl, rfl, body, hbody⟩
        · rw [hclaim]
          exact hd

/-- The state of the pass over the bases behind some declarations: the bases so far are of their
classes, form no cycle, and no static class takes part. -/
structure Based (a : Assembly) (done : List Declared) (d : Draft) : Prop where
  static? : d.model.static? = (unbased a).model.static?
  acyclic : d.model.Acyclic
  derives : ∀ p q, d.model.Derives p q → p ∈ done.map (·.path) ∧
    d.model.static? p = some false ∧ d.model.static? q = some false

variable {a : Assembly}

lemma declared_of_static? {s : Bool} {new : Declared} (hnew : new ∈ (Declared.ofAssembly a).1)
    (h : (unbased a).model.static? new.path = some s) :
    new.decl.isStatic = s ∧ ∃ body, new.decl.body = .classBody body := by
  obtain ⟨c, hc, rfl⟩ := Option.map_eq_some_iff.mp h
  obtain ⟨hmem, hpath⟩ := BindingModel.mem_of_class? hc
  obtain ⟨_, new', hnew', hpath', hstatic, hbody⟩ := mem_classes_unbased a c hmem
  -- there is no other declaration with this path
  obtain rfl := List.inj_on_of_nodup_map (nodup_path_ofAssembly a) hnew' hnew
    (hpath'.trans hpath)
  exact ⟨hstatic, hbody⟩

/-- Whether a bound class is static is what its declaration says. -/
lemma static?_of_isSome {m : BindingModel} (hm : m.static? = (unbased a).model.static?)
    {new : Declared} (hnew : new ∈ (Declared.ofAssembly a).1)
    (hclass : (m.class? new.path).isSome) : m.static? new.path = some new.decl.isStatic := by
  obtain ⟨c, hc⟩ := Option.isSome_iff_exists.mp hclass
  have hs : m.static? new.path = some c.isStatic := by
    rw [BindingModel.static?, hc, Option.map_some]
  rw [hs, (declared_of_static? hnew (hm ▸ hs)).1]

lemma based_unbased : (unbased a).Based a [] := by
  have hnone : ∀ p q, ¬ (unbased a).model.Derives p q := by
    intro p q hpq
    obtain ⟨c, hc, hbase⟩ := Option.bind_eq_some_iff.mp hpq
    have := (mem_classes_unbased a c (BindingModel.mem_of_class? hc).1).1
    rw [this] at hbase
    cases hbase
  refine ⟨rfl, ?_, fun p q hpq => absurd hpq (hnone p q)⟩
  intro p hp
  obtain ⟨q, hpq, _⟩ := Relation.TransGen.head'_iff.mp hp
  exact hnone p q hpq

lemma Based.resolveBase {done : List Declared} {d : Draft} (h : d.Based a done) {new : Declared}
    (hnew : new ∈ (Declared.ofAssembly a).1) :
    (d.resolveBase (Declared.ofAssembly a).1 new).Based a (done ++ [new]) := by
  have hkept : d.Based a (done ++ [new]) :=
    ⟨h.static?, h.acyclic, fun p q hpq => ⟨by simp [(h.derives p q hpq).1], (h.derives p q hpq).2⟩⟩
  rcases d.resolveBase_spec (Declared.ofAssembly a).1 new with heq |
    ⟨name, members, hbody, hclass, ⟨base, hbase, heq⟩ | ⟨fault, _, heq⟩⟩
  · rw [heq]
    exact hkept
  · have hs := d.static?_resolveBase (Declared.ofAssembly a).1 new
    rw [heq] at hs ⊢
    -- the class is not static, since its declaration is not
    have hstatic : new.decl.isStatic = false := by
      by_contra hstatic
      rw [BindingModel.baseFor, if_pos (by simpa using hstatic)] at hbase
      cases hbase
    obtain ⟨found, hfound⟩ : ∃ found,
        Declared.lookup? (Declared.ofAssembly a).1 new.path.scope name = some found := by
      cases hl : Declared.lookup? (Declared.ofAssembly a).1 new.path.scope name with
      | some found => exact ⟨found, rfl⟩
      | none =>
        rw [BindingModel.baseFor, if_neg (by simp [hstatic]), hl] at hbase
        cases hbase
    rcases d.model.baseFor_cases hstatic hfound with ⟨hok, hbs, hleads⟩ | hbad | ⟨⟨_, hbad⟩, _⟩
    · rw [hok] at hbase
      cases hbase
      refine ⟨hs.trans h.static?, ?_, ?_⟩
      · refine BindingModel.acyclic_setBase h.acyclic fun hway => ?_
        rw [BindingModel.isAssignable_iff_reflTransGen.mpr hway] at hleads
        cases hleads
      · intro p q hpq
        rw [hs]
        rcases BindingModel.derives_of_setBase hpq with ⟨rfl, rfl⟩ | hpq
        · refine ⟨by simp, ?_, hbs⟩
          rw [static?_of_isSome h.static? hnew hclass, hstatic]
        · exact hkept.derives p q hpq
    · rw [hbad] at hbase
      cases hbase
    · rw [hbad] at hbase
      cases hbase
  · rw [heq]
    exact ⟨hkept.static?, hkept.acyclic, hkept.derives⟩

lemma based_foldl (before : List Declared) :
    (∀ new ∈ before, new ∈ (Declared.ofAssembly a).1) →
      (before.foldl (resolveBase (Declared.ofAssembly a).1) (unbased a)).Based a before := by
  induction before using List.reverseRecOn with
  | nil => exact fun _ => based_unbased
  | append_singleton before new ih =>
    intro h
    rw [List.foldl_append]
    exact (ih fun n hn => h n (List.mem_append_left _ hn)).resolveBase (h new (by simp))

end Draft

/-! ### The finished model -/

section

variable (a : Assembly)

lemma classes_ofAssembly :
    (BindingModel.ofAssembly a).classes = (Draft.typesOf a).model.classes :=
  foldl_keeps (fun d : Draft => d.model.classes) _
    (fun d new => (Draft.grows_bindMembers _ d new).classes) _ _

lemma based_typesOf : (Draft.typesOf a).Based a (Declared.ofAssembly a).1 :=
  Draft.based_foldl _ fun _ hnew => hnew

lemma acyclic_ofAssembly : (BindingModel.ofAssembly a).Acyclic :=
  (BindingModel.acyclic_congr (classes_ofAssembly a)).mpr (based_typesOf a).acyclic

lemma base?_ofAssembly : (BindingModel.ofAssembly a).base? = (Draft.typesOf a).model.base? :=
  BindingModel.base?_congr (classes_ofAssembly a)

lemma static?_ofAssembly :
    (BindingModel.ofAssembly a).static? = (Draft.unbased a).model.static? :=
  (BindingModel.static?_congr (classes_ofAssembly a)).trans (based_typesOf a).static?

/-- Neither a class with a base nor the base is static. -/
lemma static?_of_derives {p q : TypePath} (h : (BindingModel.ofAssembly a).Derives p q) :
    (BindingModel.ofAssembly a).static? p = some false ∧
      (BindingModel.ofAssembly a).static? q = some false := by
  rw [BindingModel.Derives, base?_ofAssembly] at h
  rw [BindingModel.static?_congr (classes_ofAssembly a)]
  exact ((based_typesOf a).derives p q h).2

/-- Only the pass over the bases reports a base. -/
lemma invalidBase_mem_errors_iff {path : TypePath} {text : String} {fault : BaseFault}
    {span : Span} :
    ⟨.invalidBase path text fault, span⟩ ∈ (BindingModel.ofAssembly a).errors ↔
      ⟨.invalidBase path text fault, span⟩ ∈ (Draft.typesOf a).model.errors := by
  constructor
  · intro h
    have hmembers : (Draft.typesOf a).Reports
        (fun fault => ∃ owner label, MemberRefused owner label fault) (Draft.ofAssembly a) :=
      .foldl _ (fun d new _ => (Draft.reports_bindMembers _ d new).mono fun _ h => ⟨_, h⟩) _
    rcases hmembers _ h with h | ⟨_, _, h⟩
    · exact h
    · cases h with
      | name h => cases h
      | type h => cases h
  · exact fun h => bindsMembers_ofAssembly.grows.errors _ h

/-- Before the pass over the bases no base is reported. -/
lemma invalidBase_notMem_unbased {path : TypePath} {text : String} {fault : BaseFault}
    {span : Span} :
    ⟨.invalidBase path text fault, span⟩ ∉ (Draft.unbased a).model.errors := by
  intro h
  have henums : (Declared.ofAssembly a).2.Reports (fun fault => ∃ path, EnumRefused path fault)
      ((Declared.ofAssembly a).1.foldl Draft.bindEnum (Declared.ofAssembly a).2) :=
    .foldl _ (fun d new _ => (d.reports_bindEnum new).mono fun _ h => ⟨_, h⟩) _
  have hclasses : ((Declared.ofAssembly a).1.foldl Draft.bindEnum
      (Declared.ofAssembly a).2).Reports (fun fault => ∃ path, ClassRefused path fault)
      (Draft.unbased a) :=
    .foldl _ (fun d new _ => (d.reports_declareClass new).mono fun _ h => ⟨_, h⟩) _
  rcases hclasses _ h with h | ⟨_, h⟩
  · rcases henums _ h with h | ⟨_, h⟩
    · obtain ⟨_, h⟩ := errors_ofAssembly a _ h
      cases h
    · cases h with
      | name h => cases h
  · cases h with
    | name h => cases h

/-- The draft before the step of a declaration in the pass over the bases, as it compares with the
finished model. -/
structure Draft.AtTurn (new : Declared) (d : Draft) : Prop where
  static? : d.model.static? = (BindingModel.ofAssembly a).static?
  unset : d.model.base? new.path = none
  derives : ∀ p q, d.model.Derives p q → (BindingModel.ofAssembly a).Derives p q
  base? : (BindingModel.ofAssembly a).base? new.path =
    (d.resolveBase (Declared.ofAssembly a).1 new).model.base? new.path
  errors : ∀ e ∈ (d.resolveBase (Declared.ofAssembly a).1 new).model.errors,
    e ∈ (Draft.typesOf a).model.errors

variable {a}

lemma atTurn_of_split {before after : List Declared} {new : Declared}
    (h : (Declared.ofAssembly a).1 = before ++ new :: after) :
    (before.foldl (Draft.resolveBase (Declared.ofAssembly a).1) (Draft.unbased a)).AtTurn a
      new := by
  have hbased : (before.foldl (Draft.resolveBase (Declared.ofAssembly a).1)
      (Draft.unbased a)).Based a before :=
    Draft.based_foldl before fun n hn => by simp [h, hn]
  generalize hd : before.foldl (Draft.resolveBase (Declared.ofAssembly a).1) (Draft.unbased a) = d
    at hbased
  have htypes : Draft.typesOf a = after.foldl (Draft.resolveBase (Declared.ofAssembly a).1)
      (d.resolveBase (Declared.ofAssembly a).1 new) := by
    rw [← hd, ← List.foldl_cons, ← List.foldl_append, ← h]
    rfl
  -- each class has its turn once
  have hnodup := nodup_path_ofAssembly a
  rw [h, List.map_append, List.map_cons, List.nodup_append] at hnodup
  obtain ⟨_, htail, hapart⟩ := hnodup
  have hbefore : new.path ∉ before.map (·.path) := fun hn =>
    hapart _ hn _ List.mem_cons_self rfl
  refine ⟨hbased.static?.trans (static?_ofAssembly a).symm, ?_, ?_, ?_, ?_⟩
  · cases hbase : d.model.base? new.path with
    | none => rfl
    | some base => exact absurd (hbased.derives _ _ hbase).1 hbefore
  · intro p q hpq
    have hp := (hbased.derives p q hpq).1
    rw [BindingModel.Derives, base?_ofAssembly, htypes,
      Draft.base?_foldl_resolveBase _ _ _ fun hafter =>
        hapart p hp p (List.mem_cons_of_mem _ hafter) rfl,
      Draft.base?_resolveBase_of_ne _ _ _ fun hpath => hbefore (hpath ▸ hp)]
    exact hpq
  · rw [base?_ofAssembly, htypes,
      Draft.base?_foldl_resolveBase _ _ _ (List.nodup_cons.mp htail).1]
  · rw [htypes]
    exact Draft.errors_foldl_resolveBase _ _ _

namespace Draft.AtTurn

variable {new : Declared} {d : Draft}

lemma isSome_class? (h : d.AtTurn a new) :
    (d.model.class? new.path).isSome = ((BindingModel.ofAssembly a).class? new.path).isSome := by
  have := congrArg (fun s => (s new.path).isSome) h.static?
  simpa [BindingModel.static?] using this

end Draft.AtTurn

/-- A base that was reported as circular would have led back to its class. -/
lemma not_acyclic_of_circular {path : TypePath} {text : String} {span : Span}
    (h : ⟨.invalidBase path text .circular, span⟩ ∈ (BindingModel.ofAssembly a).errors) :
    ∃ new ∈ (Declared.ofAssembly a).1, ∃ name found, new.path = path ∧
      new.decl.isStatic = false ∧ new.Names (Declared.ofAssembly a).1 name found ∧
      text = found.path.dotted ∧ span = name.span ∧
      ¬ ((BindingModel.ofAssembly a).setBase path found.path).Acyclic := by
  rw [invalidBase_mem_errors_iff] at h
  obtain ⟨before, new, after, hsplit, name, members, hbody, hclass, hbase, hspan, hstep⟩ :=
    Draft.exists_step_of_mem_errors (Declared.ofAssembly a).1 _ _ (invalidBase_notMem_unbased a) h
  obtain ⟨rfl, hstatic, found, hfound, htext, hleads⟩ := BindingModel.of_baseFor_circular hbase
  have hturn := atTurn_of_split hsplit
  refine ⟨new, by simp [hsplit], name, found, rfl, hstatic,
    ⟨by rw [Declared.baseName?, hbody], hfound⟩, htext, hspan, ?_⟩
  refine BindingModel.not_acyclic_setBase (hturn.isSome_class? ▸ hclass) ?_ ?_
  · rw [hturn.base?, hstep]
    exact hturn.unset
  · exact Relation.ReflTransGen.mono hturn.derives _ _
      (BindingModel.isAssignable_iff_reflTransGen.mp hleads)

/-- A base that would lead back to its class was reported as circular. -/
lemma circular_of_not_acyclic {new found : Declared} {name : DottedName}
    (hnew : new ∈ (Declared.ofAssembly a).1) (hstatic : new.decl.isStatic = false)
    (hnames : new.Names (Declared.ofAssembly a).1 name found)
    (h : ¬ ((BindingModel.ofAssembly a).setBase new.path found.path).Acyclic) :
    ⟨.invalidBase new.path found.path.dotted .circular, name.span⟩ ∈
      (BindingModel.ofAssembly a).errors := by
  have hacyclic := acyclic_ofAssembly a
  obtain ⟨before, after, hsplit⟩ := List.append_of_mem hnew
  have hturn := atTurn_of_split hsplit
  generalize before.foldl (Draft.resolveBase (Declared.ofAssembly a).1) (Draft.unbased a) = d
    at hturn
  obtain ⟨hname, hfound⟩ := hnames
  obtain ⟨members, hbody⟩ := Declared.exists_body_of_baseName? hname
  have hclass : ((BindingModel.ofAssembly a).class? new.path).isSome := by
    by_contra hnone
    rw [BindingModel.setBase_of_class?_eq_none (Option.not_isSome_iff_eq_none.mp hnone)] at h
    exact h hacyclic
  obtain ⟨hok, herror⟩ := Draft.resolveBase_eq (Declared.ofAssembly a).1 hbody
    (hturn.isSome_class? ▸ hclass)
  rcases d.model.baseFor_cases hstatic hfound with ⟨hbase, _, _⟩ | hbase | ⟨_, hbad⟩
  · -- then the base is there already
    refine absurd (BindingModel.acyclic_setBase_of_derives hacyclic ?_) h
    rw [BindingModel.Derives, hturn.base?, hok _ hbase]
    exact BindingModel.base?_setBase_self (hturn.isSome_class? ▸ hclass)
  · rw [invalidBase_mem_errors_iff]
    refine hturn.errors _ ?_
    rw [herror _ hbase]
    exact List.mem_append_right _ (List.mem_singleton_self _)
  · -- then no way starts from the base
    refine absurd (BindingModel.acyclic_setBase hacyclic fun hway => ?_) h
    have hs : (BindingModel.ofAssembly a).static? found.path = some false := by
      rcases Relation.ReflTransGen.cases_head hway with heq | ⟨_, hstep, _⟩
      · rw [heq, Draft.static?_of_isSome (static?_ofAssembly a) hnew hclass, hstatic]
      · exact (static?_of_derives a hstep).1
    rcases hbad with hbad | hbad
    · rw [hturn.static?] at hbad
      exact hbad hs
    · rw [static?_ofAssembly] at hs
      obtain ⟨_, body, hclassBody⟩ :=
        Draft.declared_of_static? (Declared.mem_of_lookup? hfound) hs
      exact hbad body hclassBody

end

/-- The bases of the classes of a model, which `decls` declare, form an order.  A base that would
close a cycle is missing in it, and reported; a static class gets no base in any case. -/
structure BindingModel.BasesInOrder (decls : List Declared) (m : BindingModel) : Prop where
  acyclic : m.Acyclic
  base : ∀ c ∈ m.classes, ∀ base, c.base = some base →
    ∃ d ∈ m.classes, d.path = base ∧ d.isStatic = false
  static : ∀ c ∈ m.classes, c.isStatic = true →
    c.base = none ∧ ∀ d ∈ m.classes, d.base ≠ some c.path
  circular : ∀ path text span, ⟨.invalidBase path text .circular, span⟩ ∈ m.errors ↔
    ∃ new ∈ decls, ∃ name found, new.path = path ∧ new.decl.isStatic = false ∧
      new.Names decls name found ∧ text = found.path.dotted ∧ span = name.span ∧
      ¬ (m.setBase path found.path).Acyclic
  assignable : ∀ p q, m.isAssignable p q = true ↔ Relation.ReflTransGen m.Derives p q
  order : IsPartialOrder TypePath fun p q => m.isAssignable p q = true

/-- The bases of a bound model form an order. -/
theorem bases_form_order (a : Assembly) :
    (BindingModel.ofAssembly a).BasesInOrder (Declared.ofAssembly a).1 := by
  have hderives : ∀ c ∈ (BindingModel.ofAssembly a).classes, ∀ base, c.base = some base →
      (BindingModel.ofAssembly a).Derives c.path base := by
    intro c hc base hbase
    rw [BindingModel.Derives, BindingModel.base?, class?_path hc, Option.bind_some, hbase]
  have hstatic : ∀ c ∈ (BindingModel.ofAssembly a).classes,
      (BindingModel.ofAssembly a).static? c.path = some c.isStatic := by
    intro c hc
    rw [BindingModel.static?, class?_path hc, Option.map_some]
  refine ⟨acyclic_ofAssembly a, ?_, ?_, ?_, ?_, ?_⟩
  · intro c hc base hbase
    obtain ⟨d, hd, hds⟩ :=
      Option.map_eq_some_iff.mp (static?_of_derives a (hderives c hc base hbase)).2
    exact ⟨d, (BindingModel.mem_of_class? hd).1, (BindingModel.mem_of_class? hd).2, hds⟩
  · intro c hc hcs
    have hnot : ¬ (BindingModel.ofAssembly a).static? c.path = some false := by
      simp [hstatic c hc, hcs]
    refine ⟨?_, ?_⟩
    · cases hbase : c.base with
      | none => rfl
      | some base => exact absurd (static?_of_derives a (hderives c hc base hbase)).1 hnot
    · intro d hd hbase
      exact hnot (static?_of_derives a (hderives d hd c.path hbase)).2
  · intro path text span
    constructor
    · exact not_acyclic_of_circular
    · rintro ⟨new, hnew, name, found, rfl, hns, hnames, rfl, rfl, hcycle⟩
      exact circular_of_not_acyclic hnew hns hnames hcycle
  · exact fun p q => BindingModel.isAssignable_iff_reflTransGen
  · simp only [BindingModel.isAssignable_iff_reflTransGen]
    exact {
      refl := fun _ => .refl
      trans := fun _ _ _ => .trans
      antisymm := fun _ _ => (acyclic_ofAssembly a).antisymm }

/-- A static class that names itself as its base would close a cycle, but is reported for being
static. -/
theorem static_base_not_circular :
    ∃ a new name found, Assembly.ofText "public static class A : A \x7b \x7d" = .ok a ∧
      new ∈ (Declared.ofAssembly a).1 ∧ new.Names (Declared.ofAssembly a).1 name found ∧
      ¬ ((BindingModel.ofAssembly a).setBase new.path found.path).Acyclic ∧
      ∀ path text span,
        ⟨.invalidBase path text .circular, span⟩ ∉ (BindingModel.ofAssembly a).errors := by
  have hrun : (Assembly.ofText "public static class A : A \x7b \x7d").toOption.any (fun a =>
      (Declared.ofAssembly a).1.any fun new => new.baseName?.any fun name =>
        (Declared.lookup? (Declared.ofAssembly a).1 new.path.scope name).any fun found =>
          decide (((BindingModel.ofAssembly a).setBase new.path found.path).base? new.path =
            some new.path) &&
          decide ((BindingModel.ofAssembly a).errors.map (·.fault) =
            [.invalidBase new.path found.path.dotted .staticDerived])) = true := by
    decide +kernel
  obtain ⟨a, ha, hdecls⟩ := Assembly.exists_of_any hrun
  obtain ⟨new, hnew, hnames⟩ := List.any_eq_true.mp hdecls
  obtain ⟨name, hname, hlookup⟩ := (Option.any_eq_true ..).mp hnames
  obtain ⟨found, hfound, hmodel⟩ := (Option.any_eq_true ..).mp hlookup
  simp only [Bool.and_eq_true, decide_eq_true_iff] at hmodel
  obtain ⟨hbase, hfaults⟩ := hmodel
  refine ⟨a, new, name, found, ha, hnew, ⟨hname, hfound⟩, fun h => h new.path (.single hbase), ?_⟩
  intro path text span herror
  have hfault : .invalidBase path text .circular ∈
      (BindingModel.ofAssembly a).errors.map (·.fault) := List.mem_map_of_mem herror
  rw [hfaults] at hfault
  cases List.mem_singleton.mp hfault

end Interop.Model
