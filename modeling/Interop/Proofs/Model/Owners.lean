/-
# Who gets the native names

A name goes to what is bound under it.  There is one exception: an enum takes its name and those of
its items before all of its content is checked, and keeps them when it is left out in the end
(`Draft.Abandoned`).  This file says for each kind of step who gets names, and that a collision is
reported only with the owner of a name (`Draft.Grants`); `Draft.Settles` says what follows for
complete steps and for the passes.
-/
import Interop.Proofs.Model.Gains
import Interop.Proofs.Model.Reports

namespace Interop.Model

open Source

/-- The enum that a claimant is, or is an item of. -/
def Claimant.enumPath? : Claimant → Option TypePath
  | enumType path | enumItem path _ => some path
  | classType _ | function .. | arrayType _ => none

/-- The name of a claimant as its kind has it.  That of a function depends on the member. -/
def Claimant.name? : Claimant → Option String
  | enumType path | classType path => some path.symbol
  | enumItem path item => some (path.itemSymbol item)
  | function .. => none
  | arrayType element => some element.arraySymbol

/-- A name fits its claimant: it is what the kind of the claimant says, and it may be used, which
for the name of an array type is not asked. -/
structure FitsClaimant (p : String × Claimant) : Prop where
  named : ∀ name, p.2.name? = some name → p.1 = name
  usable : nameFault? p.1 = none ∨ ∃ e, p.2 = .arrayType e

lemma FitsClaimant.of_usable {symbol : String} {claimant : Claimant}
    (hname : claimant.name? = some symbol) (h : nameFault? symbol = none) :
    FitsClaimant (symbol, claimant) :=
  ⟨fun _ hsame => Option.some.inj (hname.symm.trans hsame), Or.inl h⟩

namespace BindingModel

/-- The names of a model are those of its enums, its classes and its functions; the names of array
types are among those that functions need. -/
lemma mem_claims_iff {m : BindingModel} {p : String × Claimant} :
    p ∈ m.claims ↔ (∃ e ∈ m.enums, p ∈ e.claims) ∨ (∃ c ∈ m.classes, p = c.claim) ∨
      ∃ f ∈ m.functions, p ∈ f.claims := by
  constructor
  · intro hp
    rcases List.mem_append.mp hp with hp | hp
    · rcases List.mem_append.mp hp with hp | hp
      · rcases List.mem_append.mp hp with hp | hp
        · exact Or.inl (List.mem_flatMap.mp hp)
        · obtain ⟨c, hc, rfl⟩ := List.mem_map.mp hp
          exact Or.inr (Or.inl ⟨c, hc, rfl⟩)
      · obtain ⟨f, hf, rfl⟩ := List.mem_map.mp hp
        exact Or.inr (Or.inr ⟨f, hf, f.claim_mem_claims⟩)
    · obtain ⟨e, he, rfl⟩ := List.mem_map.mp hp
      obtain ⟨f, hf, hmem⟩ := mem_arrayElements.mp he
      exact Or.inr (Or.inr ⟨f, hf, List.mem_cons_of_mem _ (List.mem_map.mpr ⟨e, hmem, rfl⟩)⟩)
  · rintro (⟨e, he, hp⟩ | ⟨c, hc, rfl⟩ | ⟨f, hf, hp⟩)
    · exact List.mem_append_left _ (List.mem_append_left _
        (List.mem_append_left _ (List.mem_flatMap.mpr ⟨e, he, hp⟩)))
    · exact List.mem_append_left _ (List.mem_append_left _
        (List.mem_append_right _ (List.mem_map_of_mem hc)))
    · exact claims_subset_claims hf p hp

/-- A model that has more has all names, whatever bases its classes have. -/
lemma claims_mono {m m' : BindingModel} (henums : ∀ e ∈ m.enums, e ∈ m'.enums)
    (hclasses : ∀ c ∈ m.classes, ∃ c' ∈ m'.classes, c'.claim = c.claim)
    (hfunctions : ∀ f ∈ m.functions, f ∈ m'.functions) : ∀ p ∈ m.claims, p ∈ m'.claims := by
  intro p hp
  rw [mem_claims_iff] at hp ⊢
  rcases hp with ⟨e, he, hp⟩ | ⟨c, hc, rfl⟩ | ⟨f, hf, hp⟩
  · exact Or.inl ⟨e, henums e he, hp⟩
  · obtain ⟨c', hc', hsame⟩ := hclasses c hc
    exact Or.inr (Or.inl ⟨c', hc', hsame.symm⟩)
  · exact Or.inr (Or.inr ⟨f, hfunctions f hf, hp⟩)

end BindingModel

namespace Draft

/-- A name was taken by an enum, for itself or an item, that was left out for its content. -/
def Abandoned (d : Draft) (p : String × Claimant) : Prop :=
  ∃ path fault span, p.2.enumPath? = some path ∧
    (⟨.invalidEnum path fault, span⟩ : BindingError) ∈ d.model.errors

/-- A name stands in the model with its claimant, or is abandoned, and fits the claimant. -/
structure Accounted (d : Draft) (p : String × Claimant) : Prop where
  purpose : p ∈ d.model.claims ∨ d.Abandoned p
  fits : FitsClaimant p

/-- If the fault is a collision, it is with the owner of the name. -/
def Backed (d : Draft) : BindingFault → Prop
  | .nameCollision symbol _ existing => d.Owns (symbol, existing)
  | _ => True

lemma Backed.of_owns {d d' : Draft} (howns : ∀ p, d.Owns p → d'.Owns p) {fault : BindingFault}
    (h : d.Backed fault) : d'.Backed fault := by
  cases fault with
  | nameCollision => exact howns _ h
  | _ => trivial

lemma backed_trans {d d' d'' : Draft} (howns : ∀ p, d'.Owns p → d''.Owns p)
    (h : ∀ e ∈ d'.model.errors, e ∈ d.model.errors ∨ d'.Backed e.fault)
    (h' : ∀ e ∈ d''.model.errors, e ∈ d'.model.errors ∨ d''.Backed e.fault) :
    ∀ e ∈ d''.model.errors, e ∈ d.model.errors ∨ d''.Backed e.fault := by
  intro e he
  rcases h' e he with he | he
  · exact (h e he).imp_right (Backed.of_owns howns)
  · exact Or.inr he

/-- Between two drafts names went only to claimants of a kind, and collisions were reported only
with owners of names. -/
structure Grants (P : String × Claimant → Prop) (d d' : Draft) : Prop extends
    Registers d d' where
  granted : ∀ p, d'.Owns p → d.Owns p ∨ P p
  backed : ∀ e ∈ d'.model.errors, e ∈ d.model.errors ∨ d'.Backed e.fault

namespace Grants

variable {P Q : String × Claimant → Prop} {d d' d'' : Draft}

lemma refl (P : String × Claimant → Prop) (d : Draft) : d.Grants P d :=
  ⟨.refl d, fun _ h => Or.inl h, fun _ h => Or.inl h⟩

lemma mono (h : d.Grants P d') (hPQ : ∀ p, P p → Q p) : d.Grants Q d' :=
  ⟨h.toRegisters, fun p hp => (h.granted p hp).imp_right (hPQ p), h.backed⟩

lemma trans (h : d.Grants P d') (h' : d'.Grants P d'') : d.Grants P d'' := by
  refine ⟨h.toRegisters.trans h'.toRegisters, ?_, backed_trans h'.owns h.backed h'.backed⟩
  intro p hp
  rcases h'.granted p hp with hp | hp
  · exact h.granted p hp
  · exact Or.inr hp

lemma report {fault : BindingFault} (h : d.Backed fault) (span : Span) :
    d.Grants P (d.report fault span) := by
  refine ⟨.report .., fun _ hp => Or.inl hp, ?_⟩
  intro e he
  rcases List.mem_append.mp he with he | he
  · exact Or.inl he
  · rw [List.mem_singleton.mp he]
    exact Or.inr (h.of_owns fun _ hp => hp)

end Grants

/-! ### Claims -/

lemma grants_claimSymbol (d : Draft) (p : String × Claimant) :
    d.Grants (· = p) { d with symbols := d.symbols.claim p.1 p.2.toOwner } := by
  refine ⟨d.registers_claimSymbol p.1 p.2.toOwner, ?_, fun _ he => Or.inl he⟩
  intro q hq
  rcases SymbolTable.key?_claim_cases hq with hq | ⟨hname, hclaimant⟩
  · exact Or.inl hq
  · exact Or.inr (Prod.ext hname hclaimant)

lemma grants_claimAll (ps : List (String × Claimant)) :
    ∀ d : Draft, d.Grants (· ∈ ps) (d.claimAll ps) := by
  induction ps with
  | nil => exact fun d => .refl _ d
  | cons p ps ih =>
    intro d
    rw [claimAll_cons]
    have hhead : d.Grants (· ∈ p :: ps) _ :=
      (d.grants_claimSymbol p).mono fun q hq => List.mem_cons.mpr (Or.inl hq)
    exact hhead.trans ((ih _).mono fun q hq => List.mem_cons_of_mem p hq)

/-- A claim is granted to the claimant, for a name that may be used, or to nobody. -/
lemma grants_claim (d : Draft) (symbol : String) (claimant : Claimant) (span : Span) :
    d.Grants (fun p => (d.claim symbol claimant span).2 = true ∧ nameFault? symbol = none ∧
      p = (symbol, claimant)) (d.claim symbol claimant span).1 := by
  rcases d.claim_cases symbol claimant span with
    ⟨fault, _, h⟩ | ⟨owner, _, howner, _, h⟩ | ⟨hfault, _, h⟩
  · rw [h]
    exact .report (by trivial) span
  · rw [h]
    refine .report ?_ span
    rw [Backed, Owns, SymbolTable.key?, howner, Option.map_some]
  · rw [h]
    exact (d.grants_claimSymbol (symbol, claimant)).mono fun p hp => ⟨rfl, hfault, hp⟩

/-- The names of enum items go to the items that are bound. -/
lemma grants_claimItems (path : TypePath) (valued : List (EnumItem × Int)) :
    ∀ d : Draft, d.Grants (fun p => FitsClaimant p ∧
      ∃ i ∈ (d.claimItems path valued).2, p = (i.symbol, .enumItem path i.name))
      (d.claimItems path valued).1 := by
  induction valued with
  | nil => exact fun d => .refl _ d
  | cons v valued ih =>
    intro d
    obtain ⟨item, value⟩ := v
    have hclaim := d.grants_claim (path.itemSymbol item.name) (.enumItem path item.name) item.span
    rw [claimItems]
    dsimp only
    refine (hclaim.mono ?_).trans ((ih _).mono ?_)
    · rintro p ⟨hgranted, hfault, rfl⟩
      rw [if_pos hgranted]
      exact ⟨.of_usable rfl hfault, _, List.mem_cons_self, rfl⟩
    · rintro p ⟨hfits, i, hi, rfl⟩
      refine ⟨hfits, i, ?_, rfl⟩
      split
      · exact List.mem_cons_of_mem _ hi
      · exact hi

/-! ### Steps and passes -/

/-- Between two drafts the names that were given out are accounted for, and collisions were reported
only with owners of names. -/
structure Settles (d d' : Draft) : Prop where
  claims : ∀ p ∈ d.model.claims, p ∈ d'.model.claims
  errors : ∀ e ∈ d.model.errors, e ∈ d'.model.errors
  owns : ∀ p, d.Owns p → d'.Owns p
  accounted : ∀ p, d'.Owns p → d.Owns p ∨ d'.Accounted p
  backed : ∀ e ∈ d'.model.errors, e ∈ d.model.errors ∨ d'.Backed e.fault

namespace Settles

variable {P : String × Claimant → Prop} {d d' d'' : Draft}

lemma trans (h : d.Settles d') (h' : d'.Settles d'') : d.Settles d'' := by
  refine ⟨fun p hp => h'.claims p (h.claims p hp), fun e he => h'.errors e (h.errors e he),
    fun p hp => h'.owns p (h.owns p hp), ?_, backed_trans h'.owns h.backed h'.backed⟩
  intro p hp
  rcases h'.accounted p hp with hp | hp
  · refine (h.accounted p hp).imp_right fun hp => ⟨?_, hp.fits⟩
    refine hp.purpose.imp (h'.claims p) ?_
    rintro ⟨path, fault, span, hpath, herror⟩
    exact ⟨path, fault, span, hpath, h'.errors _ herror⟩
  · exact Or.inr hp

/-- Names are given out, and then the model grows. -/
lemma of_grants (h : d.Grants P d') {m : BindingModel} (herrors : m.errors = d'.model.errors)
    (hclaims : ∀ p ∈ d'.model.claims, p ∈ m.claims)
    (hP : ∀ p, P p → (⟨m, d'.symbols⟩ : Draft).Accounted p) : d.Settles ⟨m, d'.symbols⟩ := by
  have hstart : ∀ p ∈ d.model.claims, p ∈ d'.model.claims := by
    intro p hp
    rw [BindingModel.mem_claims_iff] at hp ⊢
    rwa [h.classes, h.enums, h.functions]
  refine ⟨fun p hp => hclaims p (hstart p hp), ?_, h.owns, ?_, ?_⟩
  · rw [herrors]
    exact h.errors
  · exact fun p hp => (h.granted p hp).imp_right (hP p)
  · rw [herrors]
    exact fun e he => (h.backed e he).imp_right (Backed.of_owns fun _ hp => hp)

/-- Names are given out, and the model is left as it is. -/
lemma of_grants_only (h : d.Grants P d') (hP : ∀ p, P p → d'.Accounted p) : d.Settles d' :=
  of_grants h rfl (fun _ hp => hp) hP

lemma refl (d : Draft) : d.Settles d :=
  of_grants_only (.refl (fun _ => False) d) fun _ hp => hp.elim

lemma report {fault : BindingFault} (h : d.Backed fault) (span : Span) :
    d.Settles (d.report fault span) :=
  of_grants_only (P := fun _ => False) (.report h span) fun _ hp => hp.elim

lemma foldl {α : Type} {step : Draft → α → Draft} (h : ∀ (d : Draft) x, d.Settles (step d x))
    (xs : List α) (d : Draft) : d.Settles (xs.foldl step d) :=
  List.foldlRecOn (motive := fun d' => d.Settles d') xs step (.refl d)
    fun _ hd x _ => hd.trans (h _ x)

end Settles

/-- Of the names that an enum takes, each is its own or that of an item; they stand in the model
with the enum, or are abandoned with it. -/
lemma settles_bindEnum (d : Draft) (new : Declared) : d.Settles (d.bindEnum new) := by
  obtain ⟨path, decl⟩ := new
  rw [bindEnum]
  dsimp only
  split
  · rename_i body _
    split
    · exact .refl d
    · split
      · exact .report (by trivial) _
      · rename_i underlying _
        have hclaim := d.grants_claim path.symbol (.enumType path) decl.span
        split
        · have hitems := grants_claimItems path (itemValues underlying [] 0 body.items).1
            (d.claim path.symbol (.enumType path) decl.span).1
          generalize Draft.claimItems _ path _ = claimed at hitems ⊢
          obtain ⟨d', items⟩ := claimed
          -- the enum with the items that got a name
          let bound : BoundEnum :=
            ⟨path, path.symbol, underlying, decl.hasAttribute "Flags", items, decl.span⟩
          have hboth : d.Grants (fun p => FitsClaimant p ∧ p ∈ bound.claims ∧
              p.2.enumPath? = some path) d' := by
            refine (hclaim.mono ?_).trans (hitems.mono ?_)
            · rintro p ⟨_, hfault, rfl⟩
              exact ⟨.of_usable rfl hfault, List.mem_cons_self, rfl⟩
            · rintro p ⟨hfits, i, hi, rfl⟩
              exact ⟨hfits, List.mem_cons_of_mem _ (List.mem_map.mpr ⟨i, hi, rfl⟩), rfl⟩
          split
          · rename_i fault span _
            refine .of_grants_only (hboth.trans (.report (by trivial) span)) ?_
            rintro p ⟨hfits, _, hpath⟩
            exact ⟨Or.inr ⟨path, fault, span, hpath,
              List.mem_append_right _ (List.mem_singleton_self _)⟩, hfits⟩
          · refine .of_grants hboth rfl ?_ ?_
            · exact BindingModel.claims_mono (fun e he => List.mem_append_left _ he)
                (fun c hc => ⟨c, hc, rfl⟩) fun f hf => hf
            · rintro p ⟨hfits, hp, _⟩
              refine ⟨Or.inl (BindingModel.mem_claims_iff.mpr (Or.inl ⟨bound, ?_, hp⟩)), hfits⟩
              exact List.mem_append_right _ (List.mem_singleton_self _)
        · rename_i hrefused
          exact .of_grants_only hclaim fun p hp => absurd hp.1 hrefused
  · exact .refl d

lemma settles_declareClass (d : Draft) (new : Declared) : d.Settles (d.declareClass new) := by
  obtain ⟨path, decl⟩ := new
  rw [declareClass]
  dsimp only
  split
  · exact .refl d
  · split
    · exact .refl d
    · exact .report (by trivial) _
    · have hclaim := d.grants_claim path.symbol (.classType path) decl.span
      split
      · refine .of_grants hclaim rfl ?_ ?_
        · exact BindingModel.claims_mono (fun e he => he)
            (fun c hc => ⟨c, List.mem_append_left _ hc, rfl⟩) fun f hf => hf
        · rintro p ⟨_, hfault, rfl⟩
          refine ⟨Or.inl (BindingModel.mem_claims_iff.mpr (Or.inr (Or.inl ⟨⟨path, path.symbol,
            none, decl.isStatic, decl.span⟩, ?_, rfl⟩))), .of_usable rfl hfault⟩
          exact List.mem_append_right _ (List.mem_singleton_self _)
      · rename_i hrefused
        exact .of_grants_only hclaim fun p hp => absurd hp.1 hrefused

lemma settles_resolveBase (decls : List Declared) (d : Draft) (new : Declared) :
    d.Settles (d.resolveBase decls new) := by
  obtain ⟨path, decl⟩ := new
  rw [resolveBase]
  split
  · split
    · split
      · refine .of_grants (.refl (fun _ => False) d) rfl ?_ fun _ hp => hp.elim
        refine BindingModel.claims_mono (fun e he => he) (fun c hc => ?_) fun f hf => hf
        -- the class keeps its claim
        have hmem := List.mem_map_of_mem (f := BoundClass.claim) hc
        rw [← map_setBase d.model path _ BoundClass.claim fun _ _ => rfl] at hmem
        exact List.mem_map.mp hmem
      · rename_i hfault
        obtain ⟨_, _, rfl⟩ := BindingModel.baseFor_refused hfault
        exact .report (by trivial) _
    · exact .refl d
  · exact .refl d

/-- A member that has no function reports no collision. -/
lemma backed_of_bindFunction {d : Draft} {decls : List Declared} {m : BindingModel}
    {owner : TypePath} {c : Candidate} {ordinal : Nat} {e : BindingError}
    (h : bindFunction decls m owner c ordinal = .error e) : d.Backed e.fault := by
  have hfault := bindFunction_fault h
  generalize e.fault = fault at hfault ⊢
  cases hfault with
  | type h =>
    cases h with
    | unsupported | unknown => trivial
  | static | identifier => trivial

/-- The names that a function needs fit; only its symbol was checked. -/
lemma fits_of_bindFunction {decls : List Declared} {m : BindingModel} {owner : TypePath}
    {c : Candidate} {ordinal : Nat} {f : NativeFunction}
    (h : bindFunction decls m owner c ordinal = .ok f) {p : String × Claimant}
    (hp : p ∈ f.claims) : FitsClaimant p := by
  rcases List.mem_cons.mp hp with rfl | hp
  · exact ⟨nofun, Or.inl (isBinding_of_bindFunction h).nameFault⟩
  · obtain ⟨e, _, rfl⟩ := List.mem_map.mp hp
    exact ⟨fun _ => Option.some.inj, Or.inr ⟨e, rfl⟩⟩

lemma settles_bindMember (decls : List Declared) (owner : TypePath) (d : Draft)
    (c : Candidate × Nat) : d.Settles (d.bindMember decls owner c) := by
  cases hb : bindFunction decls d.model owner c.1 c.2 with
  | error e =>
    rw [bindMember_error hb]
    exact .report (backed_of_bindFunction hb) e.span
  | ok f =>
    rw [bindMember_ok hb]
    rcases d.addFunction_cases f with ⟨p, _, existing, howns, _, h⟩ | ⟨_, h⟩
    · rw [h]
      refine .report ?_ f.span
      exact howns
    · rw [h]
      refine .of_grants (grants_claimAll f.claims d) rfl ?_ ?_
      · exact BindingModel.claims_mono (fun e he => he) (fun c hc => ⟨c, hc, rfl⟩)
          fun g hg => List.mem_append_left _ hg
      · intro p hp
        refine ⟨Or.inl (BindingModel.mem_claims_iff.mpr (Or.inr (Or.inr ⟨f, ?_, hp⟩))),
          fits_of_bindFunction hb hp⟩
        exact List.mem_append_right _ (List.mem_singleton_self f)

lemma settles_bindMembers (decls : List Declared) (d : Draft) (new : Declared) :
    d.Settles (d.bindMembers decls new) := by
  rw [d.bindMembers_eq decls new]
  split
  · exact .foldl (settles_bindMember decls new.path) _ d
  · exact .refl d

/-- Collecting the declarations gives out no name. -/
lemma symbols_ofAssembly (a : Assembly) : (Declared.ofAssembly a).2.symbols = .empty := by
  rw [Declared.ofAssembly, Declared.distinct]
  refine List.foldlRecOn (motive := fun s : List Declared × Draft => s.2.symbols = .empty) _ _
    rfl ?_
  rintro ⟨kept, d⟩ hd new _
  dsimp only
  split
  · exact hd
  · exact hd

lemma settles_ofAssembly (a : Assembly) : (Declared.ofAssembly a).2.Settles (ofAssembly a) :=
  (((Settles.foldl settles_bindEnum _ _).trans (.foldl settles_declareClass _ _)).trans
    (.foldl (settles_resolveBase _) _ _)).trans (.foldl (settles_bindMembers _) _ _)

/-- When an assembly is bound, every name that has an owner is accounted for. -/
lemma accounted_ofAssembly (a : Assembly) {p : String × Claimant} (h : (ofAssembly a).Owns p) :
    (ofAssembly a).Accounted p := by
  refine ((settles_ofAssembly a).accounted p h).resolve_left ?_
  rw [Owns, symbols_ofAssembly]
  intro hnone
  cases hnone

/-- Every collision that is reported is with the owner of a name. -/
lemma backed_ofAssembly (a : Assembly) :
    ∀ e ∈ (BindingModel.ofAssembly a).errors, (ofAssembly a).Backed e.fault := by
  intro e he
  rcases (settles_ofAssembly a).backed e he with he | he
  · obtain ⟨path, hfault⟩ := errors_ofAssembly a e he
    rw [hfault]
    trivial
  · exact he

end Draft

end Interop.Model
