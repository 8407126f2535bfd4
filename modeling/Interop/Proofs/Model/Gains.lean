/-
# What the steps of binding add

Binding only adds to a model: each step puts something at the ends of its lists, or nothing
(`Draft.Gains`).  So the lists of a bound model are put together, pass by pass and in the order of
the declarations, from what each declaration contributes (`Contributions`), and whether a type is in
the model can be told from its own contribution.

Classes count by their paths here, since they get their bases after they were added.
-/
import Interop.Proofs.Model.PassedTypes

namespace Interop.Model

open Source

/-- What is added to a model. -/
structure Gain where
  classes : List TypePath := []
  enums : List BoundEnum := []
  functions : List NativeFunction := []
  errors : List BindingError := []

namespace Gain

/-- What is added by one step and then by another. -/
def append (g g' : Gain) : Gain :=
  ⟨g.classes ++ g'.classes, g.enums ++ g'.enums, g.functions ++ g'.functions, g.errors ++ g'.errors⟩

instance : Append Gain := ⟨append⟩

lemma append_def (g g' : Gain) : g ++ g' = ⟨g.classes ++ g'.classes, g.enums ++ g'.enums,
    g.functions ++ g'.functions, g.errors ++ g'.errors⟩ := rfl

/-- What is added by a list of steps. -/
def sum (gs : List Gain) : Gain :=
  ⟨gs.flatMap (·.classes), gs.flatMap (·.enums), gs.flatMap (·.functions), gs.flatMap (·.errors)⟩

/-- What steps add of which nothing is known but the four parts. -/
lemma sum_map {α : Type} {f : α → Gain} {xs : List α} {classes : α → List TypePath}
    {enums : α → List BoundEnum} {functions : α → List NativeFunction}
    {errors : α → List BindingError}
    (h : ∀ x ∈ xs, f x = ⟨classes x, enums x, functions x, errors x⟩) :
    sum (xs.map f) =
      ⟨xs.flatMap classes, xs.flatMap enums, xs.flatMap functions, xs.flatMap errors⟩ := by
  rw [List.map_congr_left h]
  simp only [sum, List.flatMap_map]

end Gain

/-- What binding makes of an exported member: a function, or an error in its place. -/
abbrev Outcome := Except BindingError NativeFunction

namespace Outcome

def function? : Outcome → Option NativeFunction
  | .ok f => some f
  | .error _ => none

def error? : Outcome → Option BindingError
  | .ok _ => none
  | .error e => some e

/-- What an outcome adds to the model. -/
def gain : Outcome → Gain
  | .ok f => { functions := [f] }
  | .error e => { errors := [e] }

end Outcome

lemma Gain.sum_outcomes (os : List Outcome) :
    sum (os.map Outcome.gain) =
      { functions := os.filterMap Outcome.function?, errors := os.filterMap Outcome.error? } := by
  induction os with
  | nil => rfl
  | cons o os ih =>
    obtain ⟨hclasses, henums, hfunctions, herrors⟩ := Gain.mk.inj ih
    cases o with
    | ok f | error e =>
      simp only [sum, List.map_cons, List.flatMap_cons, Outcome.gain, hclasses, henums, hfunctions,
        herrors]
      rfl

/-! ### What each kind of step reports and adds -/

/-- The claim for a name is refused. -/
inductive ClaimRefused (symbol : String) (claimant : Claimant) : BindingFault → Prop
  | identifier {fault : NameFault} (h : nameFault? symbol = some fault) :
    ClaimRefused symbol claimant (.invalidIdentifier symbol claimant.description fault)
  | collision {existing : Claimant} (h : existing ≠ claimant) :
    ClaimRefused symbol claimant (.nameCollision symbol claimant existing)

/-- An item of the enum gets no name. -/
def ItemRefused (path : TypePath) (fault : BindingFault) : Prop :=
  ∃ item, ClaimRefused (path.itemSymbol item) (.enumItem path item) fault

/-- A fault of an enum that is left out: of its name, of the name of an item, or of its content. -/
inductive EnumLeftOut (path : TypePath) : BindingFault → Prop
  | name {fault : BindingFault} (h : ClaimRefused path.symbol (.enumType path) fault) :
    EnumLeftOut path fault
  | item {fault : BindingFault} (h : ItemRefused path fault) : EnumLeftOut path fault
  | content (fault : EnumFault) : EnumLeftOut path (.invalidEnum path fault)

/-- What the pass over the enums adds for a declaration. -/
inductive EnumGain (new : Declared) : Gain → Prop
  | hidden (h : new.decl.visibility ≠ .publicAccess) : EnumGain new {}
  | other (h : ∀ body, new.decl.body ≠ .enumBody body) : EnumGain new {}
  | bound {body : EnumBody} {e : BoundEnum} {errors : List BindingError}
    (hpublic : new.decl.visibility = .publicAccess) (hbody : new.decl.body = .enumBody body)
    (hpath : e.path = new.path) (h : ∀ x ∈ errors, ItemRefused new.path x.fault) :
    EnumGain new { enums := [e], errors }
  | leftOut {body : EnumBody} {errors : List BindingError}
    (hpublic : new.decl.visibility = .publicAccess) (hbody : new.decl.body = .enumBody body)
    (hne : errors ≠ []) (h : ∀ x ∈ errors, EnumLeftOut new.path x.fault) : EnumGain new { errors }

/-- What the pass over the classes adds for a declaration. -/
inductive ClassGain (new : Declared) : Gain → Prop
  | hidden (h : new.decl.visibility ≠ .publicAccess) : ClassGain new {}
  | enum {body : EnumBody} (h : new.decl.body = .enumBody body) : ClassGain new {}
  | valueType {body : ClassBody} (hpublic : new.decl.visibility = .publicAccess)
    (hbody : new.decl.body = .structBody body) :
    ClassGain new { errors := [⟨.unsupportedType new.path.dotted new.path.dotted .structHandle,
      new.decl.span⟩] }
  | bound {body : ClassBody} (hpublic : new.decl.visibility = .publicAccess)
    (hbody : new.decl.body = .classBody body) : ClassGain new { classes := [new.path] }
  | leftOut {body : ClassBody} {fault : BindingFault}
    (hpublic : new.decl.visibility = .publicAccess) (hbody : new.decl.body = .classBody body)
    (h : ClaimRefused new.path.symbol (.classType new.path) fault) :
    ClassGain new { errors := [⟨fault, new.decl.span⟩] }

/-- What the pass over the bases adds for a declaration; `bound` are the paths of the classes. -/
inductive BaseGain (bound : List TypePath) (new : Declared) : Gain → Prop
  | nothing : BaseGain bound new {}
  | refused (hclass : new.path ∈ bound) (text : String) (fault : BaseFault) (span : Span) :
    BaseGain bound new { errors := [⟨.invalidBase new.path text fault, span⟩] }

/-- What becomes of an exported member of a class: its function, the fault for which it has none, or
the collision for which the function is left out. -/
inductive MemberOutcome (decls : List Declared) (m : BindingModel) (owner : TypePath)
    (c : Candidate × Nat) : Outcome → Prop
  | function {f : NativeFunction} (h : bindFunction decls m owner c.1 c.2 = .ok f) :
    MemberOutcome decls m owner c (.ok f)
  | unbound {e : BindingError} (h : bindFunction decls m owner c.1 c.2 = .error e) :
    MemberOutcome decls m owner c (.error e)
  | collision {f : NativeFunction} {p : String × Claimant} {existing : Claimant}
    (h : bindFunction decls m owner c.1 c.2 = .ok f) (hp : p ∈ f.claims) (hne : existing ≠ p.2) :
    MemberOutcome decls m owner c
      (.error ⟨.nameCollision p.1 (.function f.owner f.member f.ordinal) existing, f.span⟩)

/-- What becomes of the exported members of a declaration: of those of a bound class, something each
and in their order. -/
structure MemberOutcomes (decls : List Declared) (m : BindingModel) (new : Declared)
    (os : List Outcome) : Prop where
  bound : (m.class? new.path).isSome →
    List.Forall₂ (MemberOutcome decls m new.path) new.candidates os
  other : m.class? new.path = none → os = []

namespace Draft

/-- From one draft to another, something is added to the model. -/
structure Gains (d d' : Draft) (g : Gain) : Prop where
  classes : d'.model.classes.map (·.path) = d.model.classes.map (·.path) ++ g.classes
  enums : d'.model.enums = d.model.enums ++ g.enums
  functions : d'.model.functions = d.model.functions ++ g.functions
  errors : d'.model.errors = d.model.errors ++ g.errors

namespace Gains

variable {d d' d'' : Draft} {g g' : Gain}

lemma of_eq (h : d'.model = d.model) : d.Gains d' {} := by
  constructor <;> rw [h, List.append_nil]

lemma trans (h : d.Gains d' g) (h' : d'.Gains d'' g') : d.Gains d'' (g ++ g') :=
  ⟨by rw [h'.classes, h.classes, List.append_assoc]; rfl,
    by rw [h'.enums, h.enums, List.append_assoc]; rfl,
    by rw [h'.functions, h.functions, List.append_assoc]; rfl,
    by rw [h'.errors, h.errors, List.append_assoc]; rfl⟩

lemma report (d : Draft) (fault : BindingFault) (span : Span) :
    d.Gains (d.report fault span) { errors := [⟨fault, span⟩] } :=
  ⟨(List.append_nil _).symm, (List.append_nil _).symm, (List.append_nil _).symm, rfl⟩

/-- What a pass adds is what its steps add, one after the other. -/
lemma foldl {α β : Type} (step : Draft → α → Draft) (gain : β → Gain) (R : α → β → Prop)
    (inv : Draft → Prop) (xs : List α)
    (h : ∀ d, inv d → ∀ x ∈ xs,
      inv (step d x) ∧ ∃ y, R x y ∧ d.Gains (step d x) (gain y)) :
    ∀ d, inv d → ∃ ys, List.Forall₂ R xs ys ∧
      d.Gains (xs.foldl step d) (Gain.sum (ys.map gain)) := by
  induction xs with
  | nil => exact fun d _ => ⟨[], .nil, of_eq rfl⟩
  | cons x xs ih =>
    intro d hd
    obtain ⟨hinv, y, hy, hgains⟩ := h d hd x List.mem_cons_self
    obtain ⟨ys, hys, hrest⟩ := ih (fun d hd x hx => h d hd x (List.mem_cons_of_mem _ hx)) _ hinv
    exact ⟨y :: ys, .cons hy hys, hgains.trans hrest⟩

end Gains

/-! ### Steps -/

/-- A claim adds nothing when it is granted, and else one error. -/
lemma gains_claim (d : Draft) (symbol : String) (claimant : Claimant) (span : Span) :
    ((d.claim symbol claimant span).2 = true ∧ d.Gains (d.claim symbol claimant span).1 {}) ∨
    ((d.claim symbol claimant span).2 = false ∧ ∃ fault, ClaimRefused symbol claimant fault ∧
      d.Gains (d.claim symbol claimant span).1 { errors := [⟨fault, span⟩] }) := by
  rcases d.claim_cases symbol claimant span with
    ⟨fault, hf, h⟩ | ⟨owner, _, _, hne, h⟩ | ⟨_, _, h⟩
  · rw [h]
    exact Or.inr ⟨rfl, _, .identifier hf, .report ..⟩
  · rw [h]
    exact Or.inr ⟨rfl, _, .collision hne, .report ..⟩
  · rw [h]
    exact Or.inl ⟨rfl, .of_eq rfl⟩

lemma gains_claimItems (path : TypePath) (valued : List (EnumItem × Int)) :
    ∀ d : Draft, ∃ errors, (∀ e ∈ errors, ItemRefused path e.fault) ∧
      d.Gains (d.claimItems path valued).1 { errors } := by
  induction valued with
  | nil => exact fun d => ⟨[], nofun, .of_eq rfl⟩
  | cons v valued ih =>
    intro d
    obtain ⟨item, value⟩ := v
    rw [claimItems]
    dsimp only
    obtain ⟨errors, herrors, hrest⟩ := ih (d.claim (path.itemSymbol item.name)
      (.enumItem path item.name) item.span).1
    rcases d.gains_claim (path.itemSymbol item.name) (.enumItem path item.name) item.span with
      ⟨_, hclaim⟩ | ⟨_, fault, hfault, hclaim⟩
    · exact ⟨errors, herrors, hclaim.trans hrest⟩
    · refine ⟨⟨fault, item.span⟩ :: errors, ?_, hclaim.trans hrest⟩
      intro e he
      rcases List.mem_cons.mp he with rfl | he
      · exact ⟨_, hfault⟩
      · exact herrors e he

lemma gains_bindEnum (d : Draft) (new : Declared) :
    ∃ g, EnumGain new g ∧ d.Gains (d.bindEnum new) g := by
  obtain ⟨path, decl⟩ := new
  rw [bindEnum]
  dsimp only
  split
  · rename_i body hbody
    split
    · rename_i hpublic
      exact ⟨_, .hidden hpublic, .of_eq rfl⟩
    · rename_i hpublic
      rw [not_ne_iff] at hpublic
      split
      · refine ⟨_, .leftOut hpublic hbody (List.cons_ne_nil _ []) ?_, .report ..⟩
        exact List.forall_mem_singleton.mpr (.content _)
      · rename_i underlying _
        rcases d.gains_claim path.symbol (.enumType path) decl.span with
          ⟨hgranted, hclaim⟩ | ⟨hrefused, fault, hfault, hclaim⟩
        · rw [if_pos hgranted]
          obtain ⟨errors, herrors, hitems⟩ := gains_claimItems path
            (itemValues underlying [] 0 body.items).1 (d.claim path.symbol (.enumType path)
              decl.span).1
          generalize Draft.claimItems _ path _ = claimed at hitems ⊢
          have hclaims := hclaim.trans hitems
          split
          · rename_i fault span _
            refine ⟨{ errors := errors ++ [⟨.invalidEnum path fault, span⟩] },
              .leftOut hpublic hbody (by simp) ?_, hclaims.trans (.report _ _ span)⟩
            intro e he
            rcases List.mem_append.mp he with he | he
            · exact .item (herrors e he)
            · rw [List.mem_singleton.mp he]
              exact .content fault
          · refine ⟨{ enums := [⟨path, path.symbol, underlying, decl.hasAttribute "Flags",
              claimed.2, decl.span⟩], errors }, .bound hpublic hbody rfl herrors, hclaims.classes,
              ?_, hclaims.functions, hclaims.errors⟩
            dsimp only
            rw [hclaims.enums, List.append_assoc]
            rfl
        · rw [if_neg (by simp [hrefused])]
          refine ⟨_, .leftOut hpublic hbody (List.cons_ne_nil _ []) ?_, hclaim⟩
          exact List.forall_mem_singleton.mpr (.name hfault)
  · rename_i hbody
    exact ⟨_, .other hbody, .of_eq rfl⟩

lemma gains_declareClass (d : Draft) (new : Declared) :
    ∃ g, ClassGain new g ∧ d.Gains (d.declareClass new) g := by
  obtain ⟨path, decl⟩ := new
  rw [declareClass]
  dsimp only
  split
  · rename_i hpublic
    exact ⟨_, .hidden hpublic, .of_eq rfl⟩
  · rename_i hpublic
    rw [not_ne_iff] at hpublic
    split
    · rename_i hbody
      exact ⟨_, .enum hbody, .of_eq rfl⟩
    · rename_i hbody
      exact ⟨_, .valueType hpublic hbody, .report ..⟩
    · rename_i hbody
      rcases d.gains_claim path.symbol (.classType path) decl.span with
        ⟨hgranted, hclaim⟩ | ⟨hrefused, fault, hfault, hclaim⟩
      · rw [if_pos hgranted]
        refine ⟨_, .bound hpublic hbody, ?_, hclaim.enums, hclaim.functions, hclaim.errors⟩
        rw [List.map_append, hclaim.classes, List.append_nil]
        rfl
      · rw [if_neg (by simp [hrefused])]
        exact ⟨_, .leftOut hpublic hbody hfault, hclaim⟩

end Draft

/-- The fault of a base names the class. -/
lemma BindingModel.baseFor_refused {m : BindingModel} {decls : List Declared} {path : TypePath}
    {decl : TypeDecl} {name : DottedName} {fault : BindingFault}
    (h : m.baseFor decls path decl name = .error fault) :
    ∃ text f, fault = .invalidBase path text f := by
  rw [baseFor] at h
  split at h
  · cases h
    exact ⟨_, _, rfl⟩
  · split at h
    · cases h
      exact ⟨_, _, rfl⟩
    · dsimp only at h
      split at h
      · split at h
        · cases h
          exact ⟨_, _, rfl⟩
        · split at h
          · cases h
            exact ⟨_, _, rfl⟩
          · split at h
            · cases h
              exact ⟨_, _, rfl⟩
            · cases h
      · cases h
        exact ⟨_, _, rfl⟩

lemma BindingModel.isSome_class?_iff {m : BindingModel} {path : TypePath} :
    (m.class? path).isSome ↔ path ∈ m.classes.map (·.path) := by
  simp [class?]

lemma BindingModel.isSome_enum?_iff {m : BindingModel} {path : TypePath} :
    (m.enum? path).isSome ↔ path ∈ m.enums.map (·.path) := by
  simp [enum?]

namespace Draft

lemma gains_resolveBase (decls : List Declared) (d : Draft) (new : Declared) :
    ∃ g, BaseGain (d.model.classes.map (·.path)) new g ∧ d.Gains (d.resolveBase decls new) g := by
  obtain ⟨path, decl⟩ := new
  rw [resolveBase]
  split
  · split
    · rename_i hclass
      split
      · refine ⟨_, .nothing, ?_, (List.append_nil _).symm, (List.append_nil _).symm,
          (List.append_nil _).symm⟩
        rw [List.append_nil]
        exact map_setBase d.model path _ (·.path) fun _ _ => rfl
      · rename_i hfault
        obtain ⟨_, _, rfl⟩ := BindingModel.baseFor_refused hfault
        exact ⟨_, .refused (BindingModel.isSome_class?_iff.mp hclass) _ _ _, .report ..⟩
    · exact ⟨_, .nothing, .of_eq rfl⟩
  · exact ⟨_, .nothing, .of_eq rfl⟩

/-- The step over a member adds its outcome. -/
lemma gains_bindMember (decls : List Declared) (owner : TypePath) (d : Draft)
    (c : Candidate × Nat) :
    ∃ o, MemberOutcome decls d.model owner c o ∧
      d.Gains (d.bindMember decls owner c) (Outcome.gain o) := by
  cases hb : bindFunction decls d.model owner c.1 c.2 with
  | error e =>
    rw [bindMember_error hb]
    exact ⟨_, .unbound hb, .report ..⟩
  | ok f =>
    rw [bindMember_ok hb]
    rcases d.addFunction_cases f with ⟨p, hp, existing, _, hne, h⟩ | ⟨_, h⟩
    · rw [h]
      exact ⟨_, .collision hb hp hne, .report ..⟩
    · rw [h]
      exact ⟨_, .function hb, (List.append_nil _).symm, (List.append_nil _).symm, rfl,
        (List.append_nil _).symm⟩

end Draft

/-- Of a model only the types matter for what becomes of a member. -/
lemma MemberOutcome.congr {decls : List Declared} {m m' : BindingModel} {owner : TypePath}
    {c : Candidate × Nat} {o : Outcome} (hclasses : m'.classes = m.classes)
    (henums : m'.enums = m.enums) (h : MemberOutcome decls m owner c o) :
    MemberOutcome decls m' owner c o := by
  have hsame := bindFunction_congr hclasses henums decls owner c.1 c.2
  cases h with
  | function h => exact .function (hsame.trans h)
  | unbound h => exact .unbound (hsame.trans h)
  | collision h hp hne => exact .collision (hsame.trans h) hp hne

lemma Draft.gains_bindMembers (decls : List Declared) (d : Draft) (new : Declared) :
    ∃ os, MemberOutcomes decls d.model new os ∧
      d.Gains (d.bindMembers decls new) (Gain.sum (os.map Outcome.gain)) := by
  rw [d.bindMembers_eq decls new]
  split
  · rename_i hclass
    obtain ⟨os, hos, hgains⟩ := Gains.foldl (bindMember decls new.path) Outcome.gain
      (MemberOutcome decls d.model new.path)
      (fun d' => d'.model.classes = d.model.classes ∧ d'.model.enums = d.model.enums)
      new.candidates (by
        rintro d' ⟨hclasses, henums⟩ c _
        have hgrows := d'.grows_bindMember decls new.path c
        obtain ⟨o, ho, hgains⟩ := d'.gains_bindMember decls new.path c
        exact ⟨⟨hgrows.classes.trans hclasses, hgrows.enums.trans henums⟩, o,
          ho.congr hclasses.symm henums.symm, hgains⟩) d ⟨rfl, rfl⟩
    refine ⟨os, ⟨fun _ => hos, ?_⟩, hgains⟩
    intro hnone
    rw [hnone] at hclass
    cases hclass
  · rename_i hclass
    exact ⟨[], ⟨fun h => absurd h hclass, fun _ => rfl⟩, .of_eq rfl⟩

/-! ### Passes -/

/-- Related lists are related by a function, if the first has nothing twice. -/
lemma exists_map_of_forall₂ {α β : Type} [Nonempty β] {R : α → β → Prop} {xs : List α}
    {ys : List β} (h : List.Forall₂ R xs ys) (hnodup : xs.Nodup) :
    ∃ f : α → β, ys = xs.map f ∧ ∀ x ∈ xs, R x (f x) := by
  classical
  induction h with
  | nil => exact ⟨fun _ => Classical.ofNonempty, rfl, nofun⟩
  | @cons x y xs ys hxy _ ih =>
    obtain ⟨hx, hxs⟩ := List.nodup_cons.mp hnodup
    obtain ⟨f, rfl, hf⟩ := ih hxs
    have hother : ∀ z ∈ xs, Function.update f x y z = f z := fun z hz =>
      Function.update_of_ne (ne_of_mem_of_not_mem hz hx) _ _
    refine ⟨Function.update f x y, ?_, ?_⟩
    · rw [List.map_cons, Function.update_self, List.map_congr_left hother]
    · intro z hz
      rcases List.mem_cons.mp hz with rfl | hz
      · rwa [Function.update_self]
      · rw [hother z hz]
        exact hf z hz

namespace Draft.Gains

/-- What a pass adds, step by step, where it comes to nothing twice. -/
lemma exists_foldl {α β : Type} [Nonempty β] (step : Draft → α → Draft) (gain : β → Gain)
    (R : α → β → Prop) (inv : Draft → Prop) {xs : List α} (hnodup : xs.Nodup)
    (h : ∀ d, inv d → ∀ x ∈ xs, inv (step d x) ∧ ∃ y, R x y ∧ d.Gains (step d x) (gain y))
    (d : Draft) (hd : inv d) :
    ∃ f : α → β, (∀ x ∈ xs, R x (f x)) ∧
      d.Gains (xs.foldl step d) (Gain.sum (xs.map fun x => gain (f x))) := by
  obtain ⟨ys, hys, hgains⟩ := foldl step gain R inv xs h d hd
  obtain ⟨f, rfl, hf⟩ := exists_map_of_forall₂ hys hnodup
  rw [List.map_map] at hgains
  exact ⟨f, hf, hgains⟩

end Draft.Gains

/-- What each pass makes of one declaration. -/
structure Share where
  inEnums : Gain
  inClasses : Gain
  inBases : Gain
  members : List Outcome

section

variable (a : Assembly)

/-- The lists of a bound model consist of the shares of its declarations, pass by pass. -/
structure Contributions (share : Declared → Share) : Prop where
  inEnums : ∀ new ∈ (Declared.ofAssembly a).1, EnumGain new (share new).inEnums
  inClasses : ∀ new ∈ (Declared.ofAssembly a).1, ClassGain new (share new).inClasses
  inBases : ∀ new ∈ (Declared.ofAssembly a).1,
    BaseGain ((BindingModel.ofAssembly a).classes.map (·.path)) new (share new).inBases
  members : ∀ new ∈ (Declared.ofAssembly a).1,
    MemberOutcomes (Declared.ofAssembly a).1 (BindingModel.ofAssembly a) new (share new).members
  classes : (BindingModel.ofAssembly a).classes.map (·.path) =
    (Declared.ofAssembly a).1.flatMap fun new => (share new).inClasses.classes
  enums : (BindingModel.ofAssembly a).enums =
    (Declared.ofAssembly a).1.flatMap fun new => (share new).inEnums.enums
  functions : (BindingModel.ofAssembly a).functions =
    (Declared.ofAssembly a).1.flatMap fun new => (share new).members.filterMap Outcome.function?
  errors : (BindingModel.ofAssembly a).errors = (Declared.ofAssembly a).2.model.errors ++
    (((Declared.ofAssembly a).1.flatMap fun new => (share new).inEnums.errors) ++
    ((Declared.ofAssembly a).1.flatMap fun new => (share new).inClasses.errors) ++
    ((Declared.ofAssembly a).1.flatMap fun new => (share new).inBases.errors) ++
    (Declared.ofAssembly a).1.flatMap fun new => (share new).members.filterMap Outcome.error?)

lemma EnumGain.only {new : Declared} {g : Gain} (h : EnumGain new g) :
    g = { enums := g.enums, errors := g.errors } := by
  cases h <;> rfl

lemma ClassGain.only {new : Declared} {g : Gain} (h : ClassGain new g) :
    g = { classes := g.classes, errors := g.errors } := by
  cases h <;> rfl

lemma BaseGain.only {bound : List TypePath} {new : Declared} {g : Gain}
    (h : BaseGain bound new g) : g = { errors := g.errors } := by
  cases h <;> rfl

lemma MemberOutcomes.congr {decls : List Declared} {m m' : BindingModel} {new : Declared}
    {os : List Outcome} (hclasses : m'.classes = m.classes) (henums : m'.enums = m.enums)
    (h : MemberOutcomes decls m new os) : MemberOutcomes decls m' new os := by
  have hclass : m'.class? new.path = m.class? new.path := by
    rw [BindingModel.class?, BindingModel.class?, hclasses]
  refine ⟨fun hsome => ?_, fun hnone => h.other (hclass ▸ hnone)⟩
  exact (h.bound (hclass ▸ hsome)).imp fun _ _ ho => ho.congr hclasses henums

/-- What becomes of a member becomes of a member of a class of the model. -/
lemma MemberOutcomes.exists_candidate {decls : List Declared} {m : BindingModel} {new : Declared}
    {os : List Outcome} (h : MemberOutcomes decls m new os) {o : Outcome} (ho : o ∈ os) :
    (m.class? new.path).isSome ∧ ∃ c ∈ new.candidates, MemberOutcome decls m new.path c o := by
  cases hclass : m.class? new.path with
  | none =>
    rw [h.other hclass] at ho
    cases ho
  | some c => exact ⟨rfl, exists_of_mem_forall₂ (h.bound (by rw [hclass]; rfl)) ho⟩

lemma nodup_ofAssembly : (Declared.ofAssembly a).1.Nodup :=
  List.Nodup.of_map _ (nodup_path_ofAssembly a)

instance : Nonempty Gain := ⟨{}⟩

lemma flatMap_nothing {α β : Type} (xs : List α) : xs.flatMap (fun _ => ([] : List β)) = [] :=
  List.flatMap_eq_nil_iff.mpr fun _ _ => rfl

/-- The four passes of binding, with what each declaration contributes. -/
lemma exists_contributions : ∃ share, Contributions a share := by
  have hnodup := nodup_ofAssembly a
  -- the passes over enums and classes depend on nothing that changes
  obtain ⟨inEnums, henum, hgains₁⟩ := Draft.Gains.exists_foldl Draft.bindEnum id EnumGain
    (fun _ => True) hnodup (fun d _ new _ => ⟨trivial, d.gains_bindEnum new⟩)
    (Declared.ofAssembly a).2 trivial
  obtain ⟨inClasses, hclass, hgains₂⟩ := Draft.Gains.exists_foldl Draft.declareClass id ClassGain
    (fun _ => True) hnodup (fun d _ new _ => ⟨trivial, d.gains_declareClass new⟩)
    ((Declared.ofAssembly a).1.foldl Draft.bindEnum (Declared.ofAssembly a).2) trivial
  -- bases are set in the classes that there are
  have hunbased : (BindingModel.ofAssembly a).classes.map (·.path) = _ := classPaths_ofAssembly a
  obtain ⟨inBases, hbase, hgains₃⟩ := Draft.Gains.exists_foldl
    (Draft.resolveBase (Declared.ofAssembly a).1) id
    (BaseGain ((BindingModel.ofAssembly a).classes.map (·.path)))
    (fun d => d.model.classes.map (·.path) = (BindingModel.ofAssembly a).classes.map (·.path))
    hnodup (fun d hd new _ => ⟨(Draft.map_resolveBase _ d new _ fun _ _ => rfl).trans hd,
      hd ▸ d.gains_resolveBase (Declared.ofAssembly a).1 new⟩) _ hunbased.symm
  -- members are bound among the types of the finished model
  obtain ⟨members, hmember, hgains₄⟩ := Draft.Gains.exists_foldl
    (Draft.bindMembers (Declared.ofAssembly a).1) (fun os => Gain.sum (os.map Outcome.gain))
    (MemberOutcomes (Declared.ofAssembly a).1 (BindingModel.ofAssembly a))
    (fun d => (BindingModel.ofAssembly a).classes = d.model.classes ∧
      (BindingModel.ofAssembly a).enums = d.model.enums) hnodup (by
      rintro d ⟨hclasses, henums⟩ new _
      have hgrows := d.grows_bindMembers (Declared.ofAssembly a).1 new
      obtain ⟨os, hos, hgains⟩ := d.gains_bindMembers (Declared.ofAssembly a).1 new
      exact ⟨⟨hclasses.trans hgrows.classes.symm, henums.trans hgrows.enums.symm⟩, os,
        hos.congr hclasses henums, hgains⟩) (Draft.typesOf a)
    ⟨bindsMembers_ofAssembly.grows.classes, bindsMembers_ofAssembly.grows.enums⟩
  have hgains := ((hgains₁.trans hgains₂).trans hgains₃).trans hgains₄
  simp only [id, Gain.sum_map fun new hnew => (henum new hnew).only,
    Gain.sum_map fun new hnew => (hclass new hnew).only,
    Gain.sum_map fun new hnew => (hbase new hnew).only,
    Gain.sum_map fun new _ => Gain.sum_outcomes (members new)] at hgains
  simp only [Gain.append_def, flatMap_nothing, List.nil_append, List.append_nil] at hgains
  -- nothing is bound before the passes
  obtain ⟨hclasses, henums, hfunctions⟩ := model_ofAssembly a
  refine ⟨fun new => ⟨inEnums new, inClasses new, inBases new, members new⟩, henum, hclass, hbase,
    hmember, ?_, ?_, ?_, ?_⟩
  · have h := hgains.classes
    rwa [hclasses] at h
  · have h := hgains.enums
    rwa [henums] at h
  · have h := hgains.functions
    rwa [hfunctions] at h
  · exact hgains.errors

variable {a} {share : Declared → Share} {new : Declared}

/-- A declaration is a class of the model iff its share says so. -/
lemma Contributions.isSome_class?_iff (h : Contributions a share)
    (hnew : new ∈ (Declared.ofAssembly a).1) :
    ((BindingModel.ofAssembly a).class? new.path).isSome ↔
      new.path ∈ (share new).inClasses.classes := by
  rw [BindingModel.isSome_class?_iff, h.classes, List.mem_flatMap]
  constructor
  · rintro ⟨other, hother, hmem⟩
    -- a declaration adds no class but itself
    have hpath : new.path = other.path := by
      have hgain := h.inClasses other hother
      generalize (share other).inClasses = g at hgain hmem
      cases hgain with
      | bound => exact List.mem_singleton.mp hmem
      | hidden | enum | valueType | leftOut => cases hmem
    obtain rfl := List.inj_on_of_nodup_map (nodup_path_ofAssembly a) hnew hother hpath
    exact hmem
  · exact fun hmem => ⟨new, hnew, hmem⟩

/-- A declaration is an enum of the model iff its share says so. -/
lemma Contributions.isSome_enum?_iff (h : Contributions a share)
    (hnew : new ∈ (Declared.ofAssembly a).1) :
    ((BindingModel.ofAssembly a).enum? new.path).isSome ↔
      new.path ∈ (share new).inEnums.enums.map (·.path) := by
  rw [BindingModel.isSome_enum?_iff, h.enums, List.map_flatMap, List.mem_flatMap]
  constructor
  · rintro ⟨other, hother, hmem⟩
    have hpath : new.path = other.path := by
      have hgain := h.inEnums other hother
      generalize (share other).inEnums = g at hgain hmem
      cases hgain with
      | bound _ _ hpath => exact (List.mem_singleton.mp hmem).trans hpath
      | hidden | other | leftOut => cases hmem
    obtain rfl := List.inj_on_of_nodup_map (nodup_path_ofAssembly a) hnew hother hpath
    exact hmem
  · exact fun hmem => ⟨new, hnew, hmem⟩

/-- A declaration that contributes no class contributes nothing to bases and members. -/
lemma Contributions.no_members (h : Contributions a share)
    (hnew : new ∈ (Declared.ofAssembly a).1) (hclass : new.path ∉ (share new).inClasses.classes) :
    (BindingModel.ofAssembly a).class? new.path = none ∧ (share new).inBases = {} ∧
      (share new).members = [] := by
  rw [← h.isSome_class?_iff hnew] at hclass
  have hnone := Option.not_isSome_iff_eq_none.mp hclass
  refine ⟨hnone, ?_, (h.members new hnew).other hnone⟩
  have hbase := h.inBases new hnew
  generalize (share new).inBases = g at hbase ⊢
  cases hbase with
  | nothing => rfl
  | refused hmem => exact absurd (BindingModel.isSome_class?_iff.mpr hmem) hclass

end

end Interop.Model
