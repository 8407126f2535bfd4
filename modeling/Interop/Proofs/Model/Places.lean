/-
# Binding without places

Binding reports where things stand, and takes no decision by it.  So each step of it goes the same
way over a tree without spans, and the model of an assembly without spans is the model of the
assembly, without spans.

Main result: `ofAssembly_withoutSpans`.
-/
import Interop.Proofs.Model.Ordinals

namespace Interop.Model

open Source

/-! ### Models without places -/

def NativeFunction.withoutSpan (f : NativeFunction) : NativeFunction := { f with span := .nowhere }

def BoundClass.withoutSpan (c : BoundClass) : BoundClass := { c with span := .nowhere }

def BoundEnum.withoutSpan (e : BoundEnum) : BoundEnum := { e with span := .nowhere }

def BindingError.withoutSpan (e : BindingError) : BindingError := { e with span := .nowhere }

def BindingModel.withoutSpans (m : BindingModel) : BindingModel where
  classes := m.classes.map (·.withoutSpan)
  enums := m.enums.map (·.withoutSpan)
  functions := m.functions.map (·.withoutSpan)
  errors := m.errors.map (·.withoutSpan)

def Draft.withoutSpans (d : Draft) : Draft := ⟨d.model.withoutSpans, d.symbols⟩

def Declared.withoutSpans (new : Declared) : Declared := new.redeclare TypeDecl.withoutSpans

namespace BindingModel

variable (m : BindingModel)

lemma class?_withoutSpans (path : TypePath) :
    m.withoutSpans.class? path = (m.class? path).map (·.withoutSpan) := by
  rw [class?, class?, withoutSpans, List.find?_map]
  rfl

lemma enum?_withoutSpans (path : TypePath) :
    m.withoutSpans.enum? path = (m.enum? path).map (·.withoutSpan) := by
  rw [enum?, enum?, withoutSpans, List.find?_map]
  rfl

lemma base?_withoutSpans (path : TypePath) : m.withoutSpans.base? path = m.base? path := by
  rw [base?, base?, class?_withoutSpans]
  cases m.class? path <;> rfl

lemma reaches_withoutSpans (expected : TypePath) (n : Nat) (path : TypePath) :
    m.withoutSpans.reaches expected n path = m.reaches expected n path := by
  induction n generalizing path with
  | zero => rfl
  | succ n ih =>
    rw [reaches, reaches, base?_withoutSpans]
    cases m.base? path with
    | none => rfl
    | some base => simp only [ih]

lemma isAssignable_withoutSpans (actual expected : TypePath) :
    m.withoutSpans.isAssignable actual expected = m.isAssignable actual expected := by
  have hlength : m.withoutSpans.classes.length = m.classes.length := List.length_map _
  rw [isAssignable, isAssignable, hlength, reaches_withoutSpans]

lemma setBase_withoutSpans (path base : TypePath) :
    m.withoutSpans.setBase path base = (m.setBase path base).withoutSpans := by
  have hclasses : (m.classes.map (·.withoutSpan)).map
      (fun c => if c.path = path then { c with base } else c) =
      (m.classes.map fun c => if c.path = path then { c with base } else c).map
        (·.withoutSpan) := by
    rw [List.map_map, List.map_map]
    refine List.map_congr_left fun c _ => ?_
    by_cases hpath : c.path = path
    · simp [BoundClass.withoutSpan, hpath]
    · simp [BoundClass.withoutSpan, hpath]
  rw [setBase, setBase, withoutSpans, withoutSpans, hclasses]

end BindingModel

/-! ### Names and types -/

section Lookup

variable (decls : List Declared) (m : BindingModel)

lemma find?_withoutSpans (segments : List String) :
    Declared.find? (decls.map (·.withoutSpans)) segments =
      (Declared.find? decls segments).map (·.withoutSpans) := by
  rw [Declared.find?, Declared.find?, List.find?_map]
  rfl

lemma lookup?_withoutSpans (scope : List String) (name : DottedName) :
    Declared.lookup? (decls.map (·.withoutSpans)) scope name.withoutSpans =
      (Declared.lookup? decls scope name).map (·.withoutSpans) := by
  have hfrom : ∀ depth segments,
      Declared.lookupFrom (decls.map (·.withoutSpans)) scope segments depth =
        (Declared.lookupFrom decls scope segments depth).map (·.withoutSpans) := by
    intro depth segments
    induction depth with
    | zero => exact find?_withoutSpans decls segments
    | succ depth ih =>
      rw [Declared.lookupFrom, Declared.lookupFrom, find?_withoutSpans, ih, Option.map_or]
  exact hfrom _ _

lemma suggestType?_withoutSpans (name : String) :
    suggestType? (decls.map (·.withoutSpans)) name = suggestType? decls name := by
  rw [suggestType?, suggestType?, List.map_map, List.map_map]
  rfl

lemma resolveName_withoutSpans (scope : List String) (member : String) (name : DottedName) :
    resolveName (decls.map (·.withoutSpans)) m.withoutSpans scope member name.withoutSpans =
      resolveName decls m scope member name := by
  have htext : name.withoutSpans.text = name.text := rfl
  unfold resolveName
  rw [htext, lookup?_withoutSpans, suggestType?_withoutSpans]
  cases Declared.lookup? decls scope name with
  | none => rfl
  | some found =>
    obtain ⟨path, decl⟩ := found
    obtain ⟨declName, body, visibility, isStatic, attributes, span⟩ := decl
    simp only [Option.map_some, Declared.withoutSpans, Declared.redeclare, TypeDecl.withoutSpans]
    split
    · rfl
    · cases body with
      | classBody body =>
        simp only [TypeBody.withoutSpans, BindingModel.class?_withoutSpans]
        cases m.class? path <;> rfl
      | structBody body => rfl
      | enumBody body =>
        simp only [TypeBody.withoutSpans, BindingModel.enum?_withoutSpans, Option.isSome_map]

lemma resolveType_withoutSpans (scope : List String) (member : String) (type : TypeExpr) :
    resolveType (decls.map (·.withoutSpans)) m.withoutSpans scope member type.withoutSpans =
      resolveType decls m scope member type := by
  induction type using resolveType.induct with
  | case1 => rfl
  | case2 p => rfl
  | case3 => rfl
  | case4 name => exact resolveName_withoutSpans decls m scope member name
  | case5 inner =>
    simp only [TypeExpr.withoutSpans, resolveType, TypeExpr.text, TypeExpr.text_withoutSpans]
  | case6 element hjagged ih =>
    have hjagged' : ∀ inner, element.withoutSpans = .array inner → False := by
      intro inner h
      cases element <;> cases h
      exact hjagged _ rfl
    rw [TypeExpr.withoutSpans, resolveType.eq_6 _ _ _ _ _ hjagged',
      resolveType.eq_6 _ _ _ _ _ hjagged, ih]
  | case7 name args =>
    rw [TypeExpr.withoutSpans, resolveType, resolveType, ← TypeExpr.withoutSpans, TypeExpr.text_withoutSpans]
  | case8 inner =>
    rw [TypeExpr.withoutSpans, resolveType, resolveType, ← TypeExpr.withoutSpans, TypeExpr.text_withoutSpans]

end Lookup

/-! ### Enums -/

lemma value_withoutSpans (values : List (String × Int)) (e : EnumExpr) :
    e.withoutSpans.value values = e.value values := by
  induction e with
  | literal v span => rfl
  | item name span => rfl
  | negate operand span ih => rw [EnumExpr.withoutSpans, EnumExpr.value, EnumExpr.value, ih]
  | shiftLeft left right ihl ihr =>
    rw [EnumExpr.withoutSpans, EnumExpr.value, EnumExpr.value, ihl, ihr]
  | bitOr left right ihl ihr =>
    rw [EnumExpr.withoutSpans, EnumExpr.value, EnumExpr.value, ihl, ihr]

lemma itemType_withoutSpans (body : EnumBody) : itemType body.withoutSpans = itemType body := by
  obtain ⟨underlying, items⟩ := body
  cases underlying with
  | none => rfl
  | some type =>
    have htext := TypeExpr.text_withoutSpans type
    cases type with
    | primitive p => rfl
    | _ =>
      exact congrArg (fun text => (Except.error (.notIntegral text) : Except EnumFault Primitive))
        htext

/-- What is kept of the items with their values and of the first fault among them. -/
def valuedWithoutSpans (valued : List (EnumItem × Int) × Option (EnumFault × Span)) :
    List (EnumItem × Int) × Option (EnumFault × Span) :=
  (valued.1.map (Prod.map EnumItem.withoutSpans id), valued.2.map (Prod.map id fun _ => .nowhere))

lemma itemValues_withoutSpans (underlying : Primitive) (items : List EnumItem) :
    ∀ (values : List (String × Int)) (next : Int),
      itemValues underlying values next (items.map (·.withoutSpans)) =
        valuedWithoutSpans (itemValues underlying values next items) := by
  induction items with
  | nil => exact fun _ _ => rfl
  | cons item items ih =>
    intro values next
    have hname : item.withoutSpans.name = item.name := rfl
    have hspan : item.withoutSpans.span = .nowhere := rfl
    have hvalue : item.withoutSpans.value = item.value.map (·.withoutSpans) := rfl
    simp only [List.map_cons, itemValues, hname, hspan, hvalue, ih]
    cases item.value with
    | none =>
      dsimp only [Option.map_none]
      split
      · rfl
      · split <;> rfl
    | some e =>
      dsimp only [Option.map_some]
      rw [value_withoutSpans]
      cases e.value values with
      | error fault => rfl
      | ok v =>
        dsimp only
        split
        · rfl
        · split <;> rfl

/-! ### Names that are claimed -/

namespace Draft

variable (d : Draft)

lemma report_withoutSpans (fault : BindingFault) (span : Span) :
    d.withoutSpans.report fault .nowhere = (d.report fault span).withoutSpans := by
  simp [report, withoutSpans, BindingModel.withoutSpans, BindingError.withoutSpan]

/-- What is kept of a draft and a value with it. -/
def withValue {α β : Type} (f : α → β) (result : Draft × α) : Draft × β :=
  (result.1.withoutSpans, f result.2)

lemma claim_withoutSpans (symbol : String) (claimant : Claimant) (span : Span) :
    d.withoutSpans.claim symbol claimant .nowhere =
      withValue id (d.claim symbol claimant span) := by
  unfold claim
  split
  · rw [report_withoutSpans d _ span]
    rfl
  · have hsymbols : d.withoutSpans.symbols = d.symbols := rfl
    rw [hsymbols]
    split
    · rfl
    · rw [report_withoutSpans d _ span]
      rfl

lemma claimItems_withoutSpans (path : TypePath) (valued : List (EnumItem × Int)) : ∀ d : Draft,
    d.withoutSpans.claimItems path (valued.map (Prod.map EnumItem.withoutSpans id)) =
      withValue id (d.claimItems path valued) := by
  induction valued with
  | nil => exact fun _ => rfl
  | cons iv valued ih =>
    intro d
    obtain ⟨item, value⟩ := iv
    simp only [List.map_cons, Prod.map_apply, id_eq, claimItems]
    have hname : item.withoutSpans.name = item.name := rfl
    have hspan : item.withoutSpans.span = .nowhere := rfl
    rw [hname, hspan, claim_withoutSpans d _ _ item.span]
    simp only [withValue, id_eq, ih]

lemma bindEnum_withoutSpans (new : Declared) :
    d.withoutSpans.bindEnum new.withoutSpans = (d.bindEnum new).withoutSpans := by
  obtain ⟨path, name, body, visibility, isStatic, attributes, span⟩ := new
  cases body with
  | classBody body => rfl
  | structBody body => rfl
  | enumBody body =>
    have hflags : ∀ word, TypeDecl.hasAttribute ⟨name, .enumBody body.withoutSpans, visibility,
        isStatic, attributes.map (·.withoutSpans), .nowhere⟩ word =
        TypeDecl.hasAttribute ⟨name, .enumBody body, visibility, isStatic, attributes, span⟩ word :=
      fun word => List.any_map
    change d.withoutSpans.bindEnum ⟨path, ⟨name, .enumBody body.withoutSpans, visibility, isStatic,
      attributes.map (·.withoutSpans), .nowhere⟩⟩ = _
    unfold bindEnum
    dsimp only
    by_cases hpublic : visibility ≠ .publicAccess
    · rw [if_pos hpublic, if_pos hpublic]
    · rw [if_neg hpublic, if_neg hpublic, itemType_withoutSpans]
      cases itemType body with
      | error fault => exact report_withoutSpans d _ span
      | ok underlying =>
        dsimp only
        rw [claim_withoutSpans d _ _ span, hflags]
        generalize d.claim path.symbol (.enumType path) span = result
        obtain ⟨d, granted⟩ := result
        cases granted
        · rfl
        · have hitems : body.withoutSpans.items = body.items.map (·.withoutSpans) := rfl
          simp only [withValue, id_eq, if_true, hitems, itemValues_withoutSpans, valuedWithoutSpans,
            claimItems_withoutSpans]
          cases (itemValues underlying [] 0 body.items).2 with
          | none => simp [withoutSpans, BindingModel.withoutSpans, BoundEnum.withoutSpan]
          | some found => exact report_withoutSpans _ _ found.2

lemma declareClass_withoutSpans (new : Declared) :
    d.withoutSpans.declareClass new.withoutSpans = (d.declareClass new).withoutSpans := by
  obtain ⟨path, name, body, visibility, isStatic, attributes, span⟩ := new
  change d.withoutSpans.declareClass ⟨path, ⟨name, body.withoutSpans, visibility, isStatic,
    attributes.map (·.withoutSpans), .nowhere⟩⟩ = _
  unfold declareClass
  dsimp only
  by_cases hpublic : visibility ≠ .publicAccess
  · rw [if_pos hpublic, if_pos hpublic]
  · rw [if_neg hpublic, if_neg hpublic]
    cases body with
    | enumBody body => rfl
    | structBody body => exact report_withoutSpans d _ span
    | classBody body =>
      dsimp only [TypeBody.withoutSpans]
      rw [claim_withoutSpans d _ _ span]
      generalize d.claim path.symbol (.classType path) span = result
      obtain ⟨d, granted⟩ := result
      cases granted
      · rfl
      · simp [withValue, withoutSpans, BindingModel.withoutSpans, BoundClass.withoutSpan]

lemma baseFor_withoutSpans (m : BindingModel) (decls : List Declared) (path : TypePath)
    (decl : TypeDecl) (name : DottedName) :
    m.withoutSpans.baseFor (decls.map (·.withoutSpans)) path decl.withoutSpans name.withoutSpans =
      m.baseFor decls path decl name := by
  have hstatic : decl.withoutSpans.isStatic = decl.isStatic := rfl
  have htext : name.withoutSpans.text = name.text := rfl
  unfold BindingModel.baseFor
  rw [hstatic, htext, lookup?_withoutSpans]
  cases Declared.lookup? decls path.scope name with
  | none => rfl
  | some found =>
    obtain ⟨base, foundName, body, visibility, isStatic, attributes, span⟩ := found
    cases body with
    | enumBody body => rfl
    | structBody body => rfl
    | classBody body =>
      simp only [Option.map_some, Declared.withoutSpans, Declared.redeclare,
        TypeDecl.withoutSpans, TypeBody.withoutSpans, BindingModel.class?_withoutSpans,
        BindingModel.isAssignable_withoutSpans]
      cases m.class? base <;> rfl

lemma isSome_class?_withoutSpans (path : TypePath) :
    (d.withoutSpans.model.class? path).isSome = (d.model.class? path).isSome := by
  rw [withoutSpans, BindingModel.class?_withoutSpans, Option.isSome_map]

lemma resolveBase_withoutSpans (decls : List Declared) (new : Declared) :
    d.withoutSpans.resolveBase (decls.map (·.withoutSpans)) new.withoutSpans =
      (d.resolveBase decls new).withoutSpans := by
  obtain ⟨path, decl⟩ := new
  have hbody : decl.withoutSpans.body = decl.body.withoutSpans := rfl
  change d.withoutSpans.resolveBase (decls.map (·.withoutSpans)) ⟨path, decl.withoutSpans⟩ = _
  unfold resolveBase
  dsimp only
  rw [hbody]
  cases decl.body with
  | enumBody body => rfl
  | structBody body => rfl
  | classBody body =>
    obtain ⟨base, members⟩ := body
    cases base with
    | none => rfl
    | some base =>
      dsimp only [TypeBody.withoutSpans, ClassBody.withoutSpans, Option.map_some]
      rw [isSome_class?_withoutSpans]
      split
      · have hbase := baseFor_withoutSpans d.model decls path decl base
        have hmodel : d.withoutSpans.model = d.model.withoutSpans := rfl
        rw [hmodel, hbase]
        cases d.model.baseFor decls path decl base with
        | ok found =>
          exact congrArg (Draft.mk · d.symbols) (d.model.setBase_withoutSpans path found)
        | error fault => exact report_withoutSpans d fault base.span
      · rfl

end Draft

/-! ### Members -/

lemma retyped_withoutSpans (m : Member) : m.withoutSpans = m.retyped (·.withoutSpans) := by
  obtain ⟨name, kind, visibility, isStatic, span⟩ := m
  cases kind <;> rfl

lemma ofClass_withoutSpans (decl : TypeDecl) (body : ClassBody) :
    Candidate.ofClass decl.withoutSpans body.withoutSpans =
      (Candidate.ofClass decl body).map (·.retyped (·.withoutSpans)) :=
  Candidate.ofClass_retyped _ rfl rfl
    (List.map_congr_left fun m _ => retyped_withoutSpans m)

section Members

variable (decls : List Declared) (m : BindingModel) (owner : TypePath)

/-- What is kept of the outcome of binding something. -/
def outcomeWithoutSpan {α : Type} (f : α → α) : Except BindingError α → Except BindingError α
  | .ok a => .ok (f a)
  | .error e => .error e.withoutSpan

lemma bindParam_withoutSpans (label : String) (p : CandidateParam) :
    bindParam (decls.map (·.withoutSpans)) m.withoutSpans owner label
        { p with type := p.type.withoutSpans, span := .nowhere } =
      outcomeWithoutSpan id (bindParam decls m owner label p) := by
  unfold bindParam
  dsimp only
  rw [resolveType_withoutSpans, TypeExpr.text_withoutSpans]
  cases resolveType decls m owner.scope label p.type with
  | error fault => rfl
  | ok type =>
    dsimp only
    split <;> rfl

lemma bindResult_withoutSpans (label : String) (c : Candidate) :
    bindResult (decls.map (·.withoutSpans)) m.withoutSpans owner label
        (c.retyped (·.withoutSpans)).result =
      bindResult decls m owner label c.result := by
  have hvalue : ∀ type : TypeExpr, bindResult (decls.map (·.withoutSpans)) m.withoutSpans owner
      label (.value type.withoutSpans) = bindResult decls m owner label (.value type) := by
    intro type
    have hresolve := resolveType_withoutSpans decls m owner.scope label type
    cases type <;> first | rfl | exact hresolve
  simp only [Candidate.retyped]
  cases c.result with
  | owner => rfl
  | nothing => rfl
  | value type => exact hvalue type

lemma bindParams_withoutSpans (label : String) (ps : List CandidateParam) :
    (ps.map fun p => { p with type := p.type.withoutSpans, span := .nowhere }).mapM
        (bindParam (decls.map (·.withoutSpans)) m.withoutSpans owner label) =
      outcomeWithoutSpan id (ps.mapM (bindParam decls m owner label)) := by
  induction ps with
  | nil => rfl
  | cons p ps ih =>
    rw [List.map_cons, List.mapM_cons, List.mapM_cons, bindParam_withoutSpans, ih]
    cases bindParam decls m owner label p with
    | error e => rfl
    | ok bound => cases ps.mapM (bindParam decls m owner label) <;> rfl

lemma bindFunction_withoutSpans (c : Candidate) (ordinal : Nat) :
    bindFunction (decls.map (·.withoutSpans)) m.withoutSpans owner (c.retyped (·.withoutSpans))
        ordinal =
      outcomeWithoutSpan (·.withoutSpan) (bindFunction decls m owner c ordinal) := by
  have hresult := bindResult_withoutSpans decls m owner (memberLabel owner c.member) c
  have hparams := bindParams_withoutSpans decls m owner (memberLabel owner c.member) c.params
  have hstatic : (m.withoutSpans.class? owner).any (·.isStatic) =
      (m.class? owner).any (·.isStatic) := by
    rw [BindingModel.class?_withoutSpans, Option.any_map]
    rfl
  have hc : c.retyped (·.withoutSpans) = { c with
      params := c.params.map fun p => { p with type := p.type.withoutSpans, span := .nowhere }
      result := (c.retyped (·.withoutSpans)).result
      span := .nowhere } := rfl
  rw [hc]
  unfold bindFunction
  dsimp only
  rw [hstatic, hparams, hresult]
  by_cases hinstance : ((m.class? owner).any (·.isStatic) && !c.isStatic) = true
  · rw [if_pos hinstance, if_pos hinstance]
    rfl
  · rw [if_neg hinstance, if_neg hinstance]
    cases c.params.mapM (bindParam decls m owner (memberLabel owner c.member)) with
    | error e => rfl
    | ok params =>
      cases bindResult decls m owner (memberLabel owner c.member) c.result with
      | error fault => rfl
      | ok returns =>
        dsimp only [outcomeWithoutSpan, bind, Except.bind, Except.mapError, id_eq]
        split <;> rfl

end Members

namespace Draft

variable (d : Draft)

lemma addFunction_withoutSpans (f : NativeFunction) :
    d.withoutSpans.addFunction f.withoutSpan = (d.addFunction f).withoutSpans := by
  have hclaims : f.withoutSpan.claims = f.claims := rfl
  have hsymbols : d.withoutSpans.symbols = d.symbols := rfl
  unfold addFunction
  dsimp only
  rw [hclaims, hsymbols]
  split
  · exact report_withoutSpans d _ f.span
  · simp [withoutSpans, BindingModel.withoutSpans]

lemma bindMember_withoutSpans (decls : List Declared) (owner : TypePath) (c : Candidate × Nat) :
    d.withoutSpans.bindMember (decls.map (·.withoutSpans)) owner
        (Prod.map (·.retyped (·.withoutSpans)) id c) =
      (d.bindMember decls owner c).withoutSpans := by
  have hbind := bindFunction_withoutSpans decls d.model owner c.1 c.2
  unfold bindMember
  dsimp only [Prod.map, id_eq, withoutSpans]
  rw [hbind]
  cases bindFunction decls d.model owner c.1 c.2 with
  | ok f => exact addFunction_withoutSpans d f
  | error e => exact report_withoutSpans d e.fault e.span

lemma foldl_withoutSpans {α : Type} {step step' : Draft → α → Draft} {f : α → α}
    (h : ∀ d a, step' d.withoutSpans (f a) = (step d a).withoutSpans) (d : Draft) (as : List α) :
    (as.map f).foldl step' d.withoutSpans = (as.foldl step d).withoutSpans := by
  rw [List.foldl_map]
  exact List.foldl_hom withoutSpans h

lemma bindMembers_withoutSpans (decls : List Declared) (new : Declared) :
    d.withoutSpans.bindMembers (decls.map (·.withoutSpans)) new.withoutSpans =
      (d.bindMembers decls new).withoutSpans := by
  obtain ⟨path, decl⟩ := new
  have hbody : decl.withoutSpans.body = decl.body.withoutSpans := rfl
  change d.withoutSpans.bindMembers (decls.map (·.withoutSpans)) ⟨path, decl.withoutSpans⟩ = _
  unfold bindMembers
  dsimp only
  rw [hbody]
  cases decl.body with
  | enumBody body => rfl
  | structBody body => rfl
  | classBody body =>
    dsimp only [TypeBody.withoutSpans]
    rw [isSome_class?_withoutSpans, ofClass_withoutSpans, Candidate.withOrdinals_retyped]
    split
    · exact foldl_withoutSpans (fun d c => bindMember_withoutSpans d decls path c) d _
    · rfl

end Draft

/-! ### The whole assembly -/

lemma distinct_withoutSpans (decls : List Declared) :
    Declared.distinct (decls.map (·.withoutSpans)) =
      ((Declared.distinct decls).1.map (·.withoutSpans),
        (Declared.distinct decls).2.withoutSpans) := by
  rw [Declared.distinct, Declared.distinct, List.foldl_map]
  refine List.foldl_rel (r := fun s s' : List Declared × Draft =>
    s = (s'.1.map (·.withoutSpans), s'.2.withoutSpans)) rfl ?_
  rintro new _ _ ⟨kept, d⟩ rfl
  have hpath : new.withoutSpans.path = new.path := rfl
  have hspan : new.withoutSpans.decl.span = .nowhere := rfl
  dsimp only
  rw [find?_withoutSpans, Option.isSome_map, hpath, hspan]
  split
  · rw [Draft.report_withoutSpans d _ new.decl.span]
  · rw [List.map_append]
    rfl

lemma declared_withoutSpans (a : Assembly) :
    Declared.ofAssembly a.withoutSpans =
      ((Declared.ofAssembly a).1.map (·.withoutSpans),
        (Declared.ofAssembly a).2.withoutSpans) := by
  have hitems : Declared.ofItems [] a.withoutSpans.items =
      (Declared.ofItems [] a.items).map (·.withoutSpans) :=
    ofItems_redeclare (g := TypeDecl.withoutSpans) (fun _ => rfl) [] a.items
  rw [Declared.ofAssembly, Declared.ofAssembly, hitems, distinct_withoutSpans]

/-- Binding does not look at places. -/
theorem ofAssembly_withoutSpans (a : Assembly) :
    BindingModel.ofAssembly a.withoutSpans = (BindingModel.ofAssembly a).withoutSpans := by
  have htypes : Draft.typesOf a.withoutSpans = (Draft.typesOf a).withoutSpans := by
    unfold Draft.typesOf
    dsimp only
    rw [declared_withoutSpans, Draft.foldl_withoutSpans Draft.bindEnum_withoutSpans,
      Draft.foldl_withoutSpans Draft.declareClass_withoutSpans,
      Draft.foldl_withoutSpans fun d new => Draft.resolveBase_withoutSpans d _ new]
  have hdraft : Draft.ofAssembly a.withoutSpans = (Draft.ofAssembly a).withoutSpans := by
    unfold Draft.ofAssembly
    dsimp only
    rw [declared_withoutSpans, htypes,
      Draft.foldl_withoutSpans fun d new => Draft.bindMembers_withoutSpans d _ new]
  exact congrArg Draft.model hdraft

end Interop.Model
