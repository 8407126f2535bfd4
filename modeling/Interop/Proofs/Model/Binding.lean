/-
# What the steps of binding do

Binding goes through the declarations four times.  Each of its steps either gives out names and
reports errors only (`Draft.Registers`), or adds one enum, one class or one function to the model
or sets one base.  This file says so for each kind of step, with what is known about the thing
that is added; `Draft.Owns` tells that a name belongs to a claimant.
-/
import Interop.Model.Binding
import Interop.Proofs.Model.SymbolTable
import Mathlib.Data.List.Nodup
import Mathlib.Tactic.Common

namespace Interop.Model

open Source

/-- The native names of an enum and of its items, each with its claimant. -/
def BoundEnum.claims (e : BoundEnum) : List (String × Claimant) :=
  (e.nativeName, .enumType e.path) :: e.items.map fun i => (i.symbol, .enumItem e.path i.name)

/-- The native name of a class, with its claimant. -/
def BoundClass.claim (c : BoundClass) : String × Claimant := (c.nativeName, .classType c.path)

/-- The symbol of a function, with its claimant. -/
def NativeFunction.claim (f : NativeFunction) : String × Claimant :=
  (f.symbol, .function f.owner f.member f.ordinal)

namespace Draft

/-- A name belongs to a claimant. -/
def Owns (d : Draft) (p : String × Claimant) : Prop := d.symbols.key? p.1 = some p.2

/-- Between two drafts names were given out and errors reported, and nothing else happened. -/
structure Registers (d d' : Draft) : Prop where
  classes : d'.model.classes = d.model.classes
  enums : d'.model.enums = d.model.enums
  functions : d'.model.functions = d.model.functions
  errors : ∀ e ∈ d.model.errors, e ∈ d'.model.errors
  owns : ∀ p, d.Owns p → d'.Owns p

namespace Registers

@[refl] lemma refl (d : Draft) : d.Registers d :=
  ⟨rfl, rfl, rfl, fun _ h => h, fun _ h => h⟩

lemma trans {d₁ d₂ d₃ : Draft} (h : d₁.Registers d₂) (h' : d₂.Registers d₃) :
    d₁.Registers d₃ :=
  ⟨h'.classes.trans h.classes, h'.enums.trans h.enums, h'.functions.trans h.functions,
    fun e he => h'.errors e (h.errors e he), fun p hp => h'.owns p (h.owns p hp)⟩

lemma report (d : Draft) (fault : BindingFault) (span : Span) :
    d.Registers (d.report fault span) :=
  ⟨rfl, rfl, rfl, fun _ h => List.mem_append_left _ h, fun _ h => h⟩

end Registers

/-! ### Claims -/

/-- The three outcomes of a claim: the name is no identifier, it has another owner, or it is
granted. -/
lemma claim_cases (d : Draft) (symbol : String) (claimant : Claimant) (span : Span) :
    (∃ fault, nameFault? symbol = some fault ∧
      d.claim symbol claimant span =
        (d.report (.invalidIdentifier symbol claimant.description fault) span, false)) ∨
    (∃ owner, nameFault? symbol = none ∧ d.symbols.owner? symbol = some owner ∧
      owner.key ≠ claimant ∧
      d.claim symbol claimant span =
        (d.report (.nameCollision symbol claimant owner.key) span, false)) ∨
    (nameFault? symbol = none ∧ d.symbols.rival? symbol claimant.toOwner = none ∧
      d.claim symbol claimant span =
        ({ d with symbols := d.symbols.claim symbol claimant.toOwner }, true)) := by
  cases hf : nameFault? symbol with
  | some fault => exact Or.inl ⟨fault, rfl, by simp [claim, hf]⟩
  | none =>
    cases hr : d.symbols.rival? symbol claimant.toOwner with
    | some owner =>
      obtain ⟨ho, hne⟩ := SymbolTable.rival?_eq_some_iff.mp hr
      exact Or.inr (Or.inl ⟨owner, rfl, ho, hne, by simp [claim, hf, SymbolTable.register, hr]⟩)
    | none => exact Or.inr (Or.inr ⟨rfl, rfl, by simp [claim, hf, SymbolTable.register, hr]⟩)

/-- Owners of names keep them through any claim. -/
lemma registers_claimSymbol (d : Draft) (symbol : String) (o : SymbolOwner Claimant) :
    d.Registers { d with symbols := d.symbols.claim symbol o } :=
  ⟨rfl, rfl, rfl, fun _ h => h, fun _ h => SymbolTable.key?_claim_of_eq_some h⟩

lemma registers_claim (d : Draft) (symbol : String) (claimant : Claimant) (span : Span) :
    d.Registers (d.claim symbol claimant span).1 := by
  rcases d.claim_cases symbol claimant span with ⟨_, _, h⟩ | ⟨_, _, _, _, h⟩ | ⟨_, _, h⟩
  · rw [h]; exact .report ..
  · rw [h]; exact .report ..
  · rw [h]; exact d.registers_claimSymbol symbol claimant.toOwner

/-- A granted name belongs to the claimant. -/
lemma owns_of_claim {d : Draft} {symbol : String} {claimant : Claimant} {span : Span}
    (h : (d.claim symbol claimant span).2 = true) :
    (d.claim symbol claimant span).1.Owns (symbol, claimant) := by
  rcases d.claim_cases symbol claimant span with ⟨_, _, hc⟩ | ⟨_, _, _, _, hc⟩ | ⟨_, hr, hc⟩
  · simp [hc] at h
  · simp [hc] at h
  · rw [hc]
    exact SymbolTable.key?_claim_self hr

/-- A granted name may be used in generated code. -/
lemma nameFault?_of_claim {d : Draft} {symbol : String} {claimant : Claimant} {span : Span}
    (h : (d.claim symbol claimant span).2 = true) : nameFault? symbol = none := by
  rcases d.claim_cases symbol claimant span with ⟨_, _, hc⟩ | ⟨_, hf, _, _, _⟩ | ⟨hf, _, _⟩
  · simp [hc] at h
  · exact hf
  · exact hf

/-! ### Enums -/

/-- The items that get a value have names that differ from each other and from those of the
items before. -/
lemma nodup_itemValues (underlying : Primitive) (items : List EnumItem) :
    ∀ (values : List (String × Int)) (next : Int),
      ((itemValues underlying values next items).1.map (·.1.name)).Nodup ∧
      ∀ v ∈ (itemValues underlying values next items).1, values.lookup v.1.name = none := by
  induction items with
  | nil => intro values next; simp [itemValues]
  | cons item items ih =>
    intro values next
    rw [itemValues]
    split
    · simp
    · rename_i v _
      dsimp only
      split
      · simp
      · split
        · simp
        · rename_i hnew
          obtain ⟨hnodup, hfresh⟩ := ih ((item.name, v) :: values) (v + 1)
          -- the name of this item is among the values that the rest is checked against
          have hrest : ∀ w ∈ (itemValues underlying ((item.name, v) :: values) (v + 1) items).1,
              w.1.name ≠ item.name ∧ values.lookup w.1.name = none := by
            intro w hw
            have hl := hfresh w hw
            rw [List.lookup_cons] at hl
            split at hl
            · cases hl
            · rename_i hne
              exact ⟨by simpa using hne, hl⟩
          constructor
          · rw [List.map_cons, List.nodup_cons]
            refine ⟨?_, hnodup⟩
            intro hm
            obtain ⟨w, hw, hname⟩ := List.mem_map.mp hm
            exact (hrest w hw).1 hname
          · intro w hw
            rcases List.mem_cons.mp hw with rfl | hw
            · exact Option.not_isSome_iff_eq_none.mp hnew
            · exact (hrest w hw).2

lemma registers_claimItems (path : TypePath) (valued : List (EnumItem × Int)) :
    ∀ d : Draft, d.Registers (d.claimItems path valued).1 := by
  induction valued with
  | nil => intro d; exact .refl d
  | cons v valued ih =>
    intro d
    exact (d.registers_claim _ _ _).trans (ih _)

/-- The symbols of the bound items belong to them, and the bound items are some of those that
have a value. -/
lemma claimItems_spec (path : TypePath) (valued : List (EnumItem × Int)) :
    ∀ d : Draft,
      (∀ i ∈ (d.claimItems path valued).2,
        (d.claimItems path valued).1.Owns (i.symbol, .enumItem path i.name)) ∧
      ((d.claimItems path valued).2.map (·.name)).Sublist (valued.map (·.1.name)) := by
  induction valued with
  | nil => intro d; simp [claimItems]
  | cons v valued ih =>
    intro d
    obtain ⟨item, value⟩ := v
    rw [claimItems]
    dsimp only
    obtain ⟨howns, hsub⟩ := ih (d.claim (path.itemSymbol item.name)
      (.enumItem path item.name) item.span).1
    split
    · rename_i hgranted
      refine ⟨?_, by simpa using hsub⟩
      intro i hi
      rcases List.mem_cons.mp hi with rfl | hi
      · exact (registers_claimItems path valued _).owns _ (owns_of_claim hgranted)
      · exact howns i hi
    · exact ⟨howns, hsub.cons _⟩

lemma isIntegral_of_itemType {body : EnumBody} {p : Primitive} (h : itemType body = .ok p) :
    p.isIntegral = true := by
  rw [itemType] at h
  split at h
  · cases h
    rfl
  · split at h
    · rename_i hp
      cases h
      exact hp
    · cases h
  · cases h

/-- A step over the enums adds no enum, or the one that is declared: then all its names belong
to it, its items have different names, and they are of an integral type. -/
lemma bindEnum_cases (d : Draft) (new : Declared) :
    d.Registers (d.bindEnum new) ∨
    ∃ d' e, d.Registers d' ∧
      d.bindEnum new = { d' with model.enums := d'.model.enums ++ [e] } ∧
      e.path = new.path ∧ (∀ p ∈ e.claims, d'.Owns p) ∧ (e.items.map (·.name)).Nodup ∧
      e.underlying.isIntegral = true := by
  obtain ⟨path, decl⟩ := new
  rw [bindEnum]
  dsimp only
  split
  · rename_i body _
    split
    · exact Or.inl (.refl d)
    · split
      · exact Or.inl (.report ..)
      · rename_i underlying htype
        have hreg := d.registers_claim path.symbol (.enumType path) decl.span
        split
        · rename_i hgranted
          -- the enum keeps its own name while its items claim theirs
          have hitems := registers_claimItems path (itemValues underlying [] 0 body.items).1
            (d.claim path.symbol (.enumType path) decl.span).1
          obtain ⟨howns, hsub⟩ := claimItems_spec path (itemValues underlying [] 0 body.items).1
            (d.claim path.symbol (.enumType path) decl.span).1
          split
          · exact Or.inl ((hreg.trans hitems).trans (.report ..))
          · refine Or.inr ⟨_, _, hreg.trans hitems, rfl, rfl, ?_, ?_, ?_⟩
            · intro p hp
              simp only [BoundEnum.claims, List.mem_cons, List.mem_map] at hp
              rcases hp with rfl | ⟨i, hi, rfl⟩
              · exact hitems.owns _ (owns_of_claim hgranted)
              · exact howns i hi
            · exact hsub.nodup (nodup_itemValues underlying body.items [] 0).1
            · exact isIntegral_of_itemType htype
        · exact Or.inl hreg
  · exact Or.inl (.refl d)

/-! ### Classes and bases -/

/-- A step over the classes adds no class, or the one that is declared: then its name may be used,
and belongs to it. -/
lemma declareClass_cases (d : Draft) (new : Declared) :
    d.Registers (d.declareClass new) ∨
    ∃ d' c, d.Registers d' ∧
      d.declareClass new = { d' with model.classes := d'.model.classes ++ [c] } ∧
      c.path = new.path ∧ nameFault? c.path.symbol = none ∧ d'.Owns c.claim := by
  obtain ⟨path, decl⟩ := new
  rw [declareClass]
  dsimp only
  split
  · exact Or.inl (.refl d)
  · split
    · exact Or.inl (.refl d)
    · exact Or.inl (.report ..)
    · have hreg := d.registers_claim path.symbol (.classType path) decl.span
      split
      · rename_i hgranted
        exact Or.inr ⟨_, _, hreg, rfl, rfl, nameFault?_of_claim hgranted, owns_of_claim hgranted⟩
      · exact Or.inl hreg

/-- A step over the bases reports an error or sets a base, if it does anything. -/
lemma resolveBase_cases (decls : List Declared) (d : Draft) (new : Declared) :
    d.Registers (d.resolveBase decls new) ∨
    ∃ base, d.resolveBase decls new = { d with model := d.model.setBase new.path base } := by
  obtain ⟨path, decl⟩ := new
  rw [resolveBase]
  dsimp only
  split
  · split
    · split
      · exact Or.inr ⟨_, rfl⟩
      · exact Or.inl (.report ..)
    · exact Or.inl (.refl d)
  · exact Or.inl (.refl d)

/-- Setting a base changes neither the classes that there are nor their names. -/
lemma map_setBase {α : Type} (m : BindingModel) (path base : TypePath) (view : BoundClass → α)
    (h : ∀ c base, view { c with base } = view c) :
    (m.setBase path base).classes.map view = m.classes.map view := by
  rw [BindingModel.setBase, List.map_map]
  apply List.map_congr_left
  intro c _
  simp only [Function.comp_apply]
  split
  · exact h c _
  · rfl

end Draft

/-! ### Members -/

/-- Of a model only the types matter for what a type expression means. -/
lemma resolveType_congr {m m' : BindingModel} (hclasses : m'.classes = m.classes)
    (henums : m'.enums = m.enums) (decls : List Declared) (scope : List String)
    (member : String) (t : TypeExpr) :
    resolveType decls m' scope member t = resolveType decls m scope member t := by
  have hname : ∀ name, resolveName decls m' scope member name =
      resolveName decls m scope member name := by
    intro name
    cases m
    cases m'
    subst hclasses henums
    rfl
  fun_induction resolveType decls m' scope member t with
  | case4 name => rw [resolveType, hname]
  | case6 element hjagged ih => rw [resolveType, ih]; exact hjagged
  | _ => rfl

/-- Of a model only the types matter for the function that a candidate is bound as. -/
lemma bindFunction_congr {m m' : BindingModel} (hclasses : m'.classes = m.classes)
    (henums : m'.enums = m.enums) (decls : List Declared) (owner : TypePath) (c : Candidate)
    (ordinal : Nat) :
    bindFunction decls m' owner c ordinal = bindFunction decls m owner c ordinal := by
  have htype := resolveType_congr hclasses henums decls owner.scope
    (memberLabel owner c.member)
  have hparam : bindParam decls m' owner (memberLabel owner c.member) =
      bindParam decls m owner (memberLabel owner c.member) := by
    funext p
    unfold bindParam
    rw [htype]
  have hresult : bindResult decls m' owner (memberLabel owner c.member) c.result =
      bindResult decls m owner (memberLabel owner c.member) c.result := by
    unfold bindResult
    split
    · rfl
    · rfl
    · rfl
    · rw [htype]
  have hclass : m'.class? owner = m.class? owner := by
    rw [BindingModel.class?, BindingModel.class?, hclasses]
  unfold bindFunction
  dsimp only
  rw [hclass, hparam, hresult]

/-- What comes of a candidate, in the order in which something can be wrong with it. -/
inductive Binds (decls : List Declared) (m : BindingModel) (owner : TypePath) (c : Candidate)
    (ordinal : Nat) : Except BindingError NativeFunction → Prop
  | static (hstatic : (m.class? owner).any (·.isStatic) = true) (hinstance : c.isStatic = false) :
    Binds decls m owner c ordinal
      (.error ⟨.staticClassMember (memberLabel owner c.member) owner, c.span⟩)
  | params {e : BindingError}
    (hstatic : (m.class? owner).any (·.isStatic) = true → c.isStatic = true)
    (hparams : c.params.mapM (bindParam decls m owner (memberLabel owner c.member)) = .error e) :
    Binds decls m owner c ordinal (.error e)
  | returns {params : List BoundParam} {fault : BindingFault}
    (hstatic : (m.class? owner).any (·.isStatic) = true → c.isStatic = true)
    (hparams : c.params.mapM (bindParam decls m owner (memberLabel owner c.member)) = .ok params)
    (hreturns : bindResult decls m owner (memberLabel owner c.member) c.result = .error fault) :
    Binds decls m owner c ordinal (.error ⟨fault, c.span⟩)
  | symbol {params : List BoundParam} {returns : ManagedType} {fault : NameFault}
    (hstatic : (m.class? owner).any (·.isStatic) = true → c.isStatic = true)
    (hparams : c.params.mapM (bindParam decls m owner (memberLabel owner c.member)) = .ok params)
    (hreturns : bindResult decls m owner (memberLabel owner c.member) c.result = .ok returns)
    (hname : nameFault? (owner.memberSymbol c.nativeMember ordinal) = some fault) :
    Binds decls m owner c ordinal (.error
      ⟨.invalidIdentifier (owner.memberSymbol c.nativeMember ordinal) (memberLabel owner c.member)
        fault, c.span⟩)
  | bound {params : List BoundParam} {returns : ManagedType}
    (hstatic : (m.class? owner).any (·.isStatic) = true → c.isStatic = true)
    (hparams : c.params.mapM (bindParam decls m owner (memberLabel owner c.member)) = .ok params)
    (hreturns : bindResult decls m owner (memberLabel owner c.member) c.result = .ok returns)
    (hname : nameFault? (owner.memberSymbol c.nativeMember ordinal) = none) :
    Binds decls m owner c ordinal (.ok ⟨owner.memberSymbol c.nativeMember ordinal, owner, c.member,
      c.kind, c.isStatic, ordinal, params, returns, c.span⟩)

lemma binds_bindFunction (decls : List Declared) (m : BindingModel) (owner : TypePath)
    (c : Candidate) (ordinal : Nat) :
    Binds decls m owner c ordinal (bindFunction decls m owner c ordinal) := by
  rw [bindFunction]
  dsimp only
  split
  · rename_i hrefused
    rw [Bool.and_eq_true, Bool.not_eq_true'] at hrefused
    exact .static hrefused.1 hrefused.2
  · rename_i hnot
    have hstatic : (m.class? owner).any (·.isStatic) = true → c.isStatic = true := by
      intro hs
      by_contra hc
      exact hnot (by simp [hs, hc])
    cases hparams : c.params.mapM (bindParam decls m owner (memberLabel owner c.member)) with
    | error e => exact .params hstatic hparams
    | ok params =>
      cases hreturns : bindResult decls m owner (memberLabel owner c.member) c.result with
      | error fault => exact .returns hstatic hparams hreturns
      | ok returns =>
        cases hname : nameFault? (owner.memberSymbol c.nativeMember ordinal) with
        | some fault =>
          simp only [Except.mapError, bind, Except.bind]
          exact .symbol hstatic hparams hreturns hname
        | none =>
          simp only [Except.mapError, bind, Except.bind, pure, Except.pure]
          exact .bound hstatic hparams hreturns hname

/-- What is known of the function that a candidate is bound as. -/
structure IsBinding (decls : List Declared) (m : BindingModel) (owner : TypePath)
    (c : Candidate) (ordinal : Nat) (f : NativeFunction) : Prop where
  instance_or_static : (m.class? owner).any (·.isStatic) = true → c.isStatic = true
  params : c.params.mapM (bindParam decls m owner (memberLabel owner c.member)) = .ok f.params
  returns : bindResult decls m owner (memberLabel owner c.member) c.result = .ok f.returns
  symbol : f.symbol = owner.memberSymbol c.nativeMember ordinal
  nameFault : nameFault? f.symbol = none
  owner : f.owner = owner
  member : f.member = c.member
  kind : f.kind = c.kind
  isStatic : f.isStatic = c.isStatic
  ordinal : f.ordinal = ordinal
  span : f.span = c.span

lemma isBinding_of_bindFunction {decls : List Declared} {m : BindingModel} {owner : TypePath}
    {c : Candidate} {ordinal : Nat} {f : NativeFunction}
    (h : bindFunction decls m owner c ordinal = .ok f) :
    IsBinding decls m owner c ordinal f := by
  have hbinds := binds_bindFunction decls m owner c ordinal
  rw [h] at hbinds
  cases hbinds with
  | bound hstatic hparams hreturns hname =>
    exact ⟨hstatic, hparams, hreturns, rfl, hname, rfl, rfl, rfl, rfl, rfl, rfl⟩

/-- The exported members of a declaration, numbered: a class has some. -/
def Declared.candidates (new : Declared) : List (Candidate × Nat) :=
  match new.decl.body with
  | .classBody body => Candidate.withOrdinals [] (Candidate.ofClass new.decl body)
  | _ => []

namespace NativeFunction

/-- No two of the names that a function needs are the same name for different things. -/
def NamesAgree (f : NativeFunction) : Prop :=
  ∀ p ∈ f.claims, ∀ q ∈ f.claims, p.1 = q.1 → p = q

lemma claim_mem_claims (f : NativeFunction) : f.claim ∈ f.claims := List.mem_cons_self

end NativeFunction

namespace Draft

/-- The draft with a list of names claimed one after the other. -/
def claimAll (d : Draft) (ps : List (String × Claimant)) : Draft :=
  { d with symbols := ps.foldl (fun t p => t.claim p.1 p.2.toOwner) d.symbols }

lemma claimAll_cons (d : Draft) (p : String × Claimant) (ps : List (String × Claimant)) :
    d.claimAll (p :: ps) =
      ({ d with symbols := d.symbols.claim p.1 p.2.toOwner } : Draft).claimAll ps := rfl

lemma registers_claimAll (ps : List (String × Claimant)) :
    ∀ d : Draft, d.Registers (d.claimAll ps) := by
  induction ps with
  | nil => intro d; exact .refl d
  | cons p ps ih =>
    intro d
    rw [claimAll_cons]
    exact (d.registers_claimSymbol p.1 p.2.toOwner).trans (ih _)

/-- Of unopposed claims the first is granted. -/
lemma owns_claimAll_head {d : Draft} {p : String × Claimant} (ps : List (String × Claimant))
    (h : d.symbols.rival? p.1 p.2.toOwner = none) : (d.claimAll (p :: ps)).Owns p := by
  rw [claimAll_cons]
  exact (registers_claimAll ps _).owns p (SymbolTable.key?_claim_self h)

/-- When the claims for a name are unopposed before any is made, the name goes to one of
them. -/
lemma owns_claimAll (ps : List (String × Claimant)) {p : String × Claimant} :
    ∀ d : Draft, (∀ q ∈ ps, q.1 = p.1 → d.symbols.rival? q.1 q.2.toOwner = none) →
      p ∈ ps → ∃ q ∈ ps, q.1 = p.1 ∧ (d.claimAll ps).Owns q := by
  induction ps with
  | nil => intro d _ hp; cases hp
  | cons r ps ih =>
    intro d hfree hp
    by_cases hname : r.1 = p.1
    · have hr := hfree r List.mem_cons_self hname
      exact ⟨r, List.mem_cons_self, hname, owns_claimAll_head ps hr⟩
    · rcases List.mem_cons.mp hp with rfl | hp
      · exact absurd rfl hname
      · -- the claim of `r` is for another name, and changes nothing for this one
        have hrest : ∀ q ∈ ps, q.1 = p.1 →
            (d.symbols.claim r.1 r.2.toOwner).rival? q.1 q.2.toOwner = none := by
          intro q hq hqp
          rw [SymbolTable.rival?_eq_none_iff]
          intro k hk
          have hne : q.1 ≠ r.1 := fun h => hname (h.symm.trans hqp)
          rw [SymbolTable.key?_claim_of_ne _ _ hne] at hk
          have hq' := hfree q (List.mem_cons_of_mem _ hq) hqp
          exact SymbolTable.rival?_eq_none_iff.mp hq' k hk
        rw [claimAll_cons]
        obtain ⟨q, hq, hqp, howns⟩ :=
          ih { d with symbols := d.symbols.claim r.1 r.2.toOwner } hrest hp
        exact ⟨q, List.mem_cons_of_mem _ hq, hqp, howns⟩

/-- A function is refused for a name that another claimant owns, and else added with all its
names claimed. -/
lemma addFunction_cases (d : Draft) (f : NativeFunction) :
    (∃ p ∈ f.claims, ∃ existing, d.Owns (p.1, existing) ∧ existing ≠ p.2 ∧
      d.addFunction f =
        d.report (.nameCollision p.1 (.function f.owner f.member f.ordinal) existing) f.span) ∨
    ((∀ p ∈ f.claims, d.symbols.rival? p.1 p.2.toOwner = none) ∧
      d.addFunction f =
        { d.claimAll f.claims with model.functions := d.model.functions ++ [f] }) := by
  rw [addFunction]
  dsimp only
  split
  · rename_i symbol existing hconflict
    obtain ⟨p, hp, hr⟩ := List.exists_of_findSome?_eq_some hconflict
    obtain ⟨o, ho, heq⟩ := Option.map_eq_some_iff.mp hr
    obtain ⟨rfl, rfl⟩ := Prod.mk.inj heq
    obtain ⟨hown, hne⟩ := SymbolTable.rival?_eq_some_iff.mp ho
    refine Or.inl ⟨p, hp, o.key, ?_, hne, rfl⟩
    rw [Owns, SymbolTable.key?, hown, Option.map_some]
  · rename_i hfree
    refine Or.inr ⟨?_, rfl⟩
    intro p hp
    exact Option.map_eq_none_iff.mp (List.findSome?_eq_none_iff.mp hfree p hp)

lemma bindMember_error {decls : List Declared} {owner : TypePath} {d : Draft}
    {c : Candidate × Nat} {e : BindingError}
    (h : bindFunction decls d.model owner c.1 c.2 = .error e) :
    d.bindMember decls owner c = d.report e.fault e.span := by
  simp only [bindMember, h]

lemma bindMember_ok {decls : List Declared} {owner : TypePath} {d : Draft}
    {c : Candidate × Nat} {f : NativeFunction}
    (h : bindFunction decls d.model owner c.1 c.2 = .ok f) :
    d.bindMember decls owner c = d.addFunction f := by
  simp only [bindMember, h]

/-- A step over the members reports an error, or adds the function that the member is bound
as. -/
lemma bindMember_cases (decls : List Declared) (owner : TypePath) (d : Draft)
    (c : Candidate × Nat) :
    d.Registers (d.bindMember decls owner c) ∨
    ∃ f, bindFunction decls d.model owner c.1 c.2 = .ok f ∧
      (∀ p ∈ f.claims, d.symbols.rival? p.1 p.2.toOwner = none) ∧
      d.bindMember decls owner c =
        { d.claimAll f.claims with model.functions := d.model.functions ++ [f] } := by
  cases hb : bindFunction decls d.model owner c.1 c.2 with
  | error e =>
    rw [bindMember_error hb]
    exact Or.inl (.report ..)
  | ok f =>
    rw [bindMember_ok hb]
    rcases d.addFunction_cases f with ⟨_, _, _, _, _, h⟩ | ⟨hfree, h⟩
    · rw [h]
      exact Or.inl (.report ..)
    · exact Or.inr ⟨f, rfl, hfree, h⟩

/-- The members of a bound class are bound one after the other. -/
lemma bindMembers_eq (decls : List Declared) (d : Draft) (new : Declared) :
    d.bindMembers decls new =
      if (d.model.class? new.path).isSome then
        new.candidates.foldl (bindMember decls new.path) d
      else d := by
  obtain ⟨path, decl⟩ := new
  cases hbody : decl.body with
  | classBody body => simp only [bindMembers, Declared.candidates, hbody]
  | structBody | enumBody =>
    simp only [bindMembers, Declared.candidates, hbody, List.foldl_nil, ite_self]

/-! ### What the passes leave alone -/

lemma classes_bindEnum (d : Draft) (new : Declared) :
    (d.bindEnum new).model.classes = d.model.classes := by
  rcases d.bindEnum_cases new with hr | ⟨d', e, hr, heq, _⟩
  · exact hr.classes
  · rw [heq]; exact hr.classes

lemma functions_bindEnum (d : Draft) (new : Declared) :
    (d.bindEnum new).model.functions = d.model.functions := by
  rcases d.bindEnum_cases new with hr | ⟨d', e, hr, heq, _⟩
  · exact hr.functions
  · rw [heq]; exact hr.functions

lemma enums_declareClass (d : Draft) (new : Declared) :
    (d.declareClass new).model.enums = d.model.enums := by
  rcases d.declareClass_cases new with hr | ⟨d', c, hr, heq, _⟩
  · exact hr.enums
  · rw [heq]; exact hr.enums

lemma functions_declareClass (d : Draft) (new : Declared) :
    (d.declareClass new).model.functions = d.model.functions := by
  rcases d.declareClass_cases new with hr | ⟨d', c, hr, heq, _⟩
  · exact hr.functions
  · rw [heq]; exact hr.functions

lemma enums_resolveBase (decls : List Declared) (d : Draft) (new : Declared) :
    (d.resolveBase decls new).model.enums = d.model.enums := by
  rcases d.resolveBase_cases decls new with hr | ⟨base, heq⟩
  · exact hr.enums
  · rw [heq]; rfl

lemma functions_resolveBase (decls : List Declared) (d : Draft) (new : Declared) :
    (d.resolveBase decls new).model.functions = d.model.functions := by
  rcases d.resolveBase_cases decls new with hr | ⟨base, heq⟩
  · exact hr.functions
  · rw [heq]; rfl

lemma map_resolveBase {α : Type} (decls : List Declared) (d : Draft) (new : Declared)
    (view : BoundClass → α) (h : ∀ c base, view { c with base } = view c) :
    (d.resolveBase decls new).model.classes.map view = d.model.classes.map view := by
  rcases d.resolveBase_cases decls new with hr | ⟨base, heq⟩
  · rw [hr.classes]
  · rw [heq]; exact map_setBase d.model new.path base view h

/-- Between two drafts functions may have been added, but no types. -/
structure Grows (d d' : Draft) : Prop where
  classes : d'.model.classes = d.model.classes
  enums : d'.model.enums = d.model.enums
  functions : ∀ f ∈ d.model.functions, f ∈ d'.model.functions
  errors : ∀ e ∈ d.model.errors, e ∈ d'.model.errors
  owns : ∀ p, d.Owns p → d'.Owns p

lemma Registers.grows {d d' : Draft} (h : d.Registers d') : d.Grows d' :=
  ⟨h.classes, h.enums, fun _ hf => h.functions ▸ hf, h.errors, h.owns⟩

lemma Grows.trans {d₁ d₂ d₃ : Draft} (h : d₁.Grows d₂) (h' : d₂.Grows d₃) : d₁.Grows d₃ :=
  ⟨h'.classes.trans h.classes, h'.enums.trans h.enums,
    fun f hf => h'.functions f (h.functions f hf), fun e he => h'.errors e (h.errors e he),
    fun p hp => h'.owns p (h.owns p hp)⟩

lemma grows_bindMember (decls : List Declared) (owner : TypePath) (d : Draft)
    (c : Candidate × Nat) : d.Grows (d.bindMember decls owner c) := by
  rcases d.bindMember_cases decls owner c with hr | ⟨f, _, _, heq⟩
  · exact hr.grows
  · have hr := registers_claimAll f.claims d
    rw [heq]
    exact ⟨hr.classes, hr.enums, fun g hg => List.mem_append_left _ hg, hr.errors, hr.owns⟩

lemma grows_bindMembers (decls : List Declared) (d : Draft) (new : Declared) :
    d.Grows (d.bindMembers decls new) := by
  rw [d.bindMembers_eq decls new]
  split
  · exact List.foldlRecOn (motive := fun d' => d.Grows d') _ _ (Registers.refl d).grows
      fun d' h c _ => h.trans (grows_bindMember decls new.path d' c)
  · exact (Registers.refl d).grows

end Draft

end Interop.Model
