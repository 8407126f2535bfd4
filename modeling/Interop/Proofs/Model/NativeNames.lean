/-
# Native names are given out once

The native names of a bound model: of enums, enum items, classes, functions, and of the types of
the arrays that functions pass.  While an assembly is bound, each name of the model belongs in
the table of names to what it stands for (`Draft.Recorded`), so that two things could have one
name only if they were the same claimant.

A function claims its names together, and they are compared with the names given out before but
not with each other.  So the names of a model are pairwise distinct exactly when those of each
function are (`nodup_nativeNames_iff`); `nativeNames_not_nodup` is a model where they are not.
-/
import Interop.Proofs.Model.Binding
import Interop.Source.Parser

namespace Interop.Model

open Source

namespace BindingModel

/-- The native names of a model, each with its claimant. -/
def claims (m : BindingModel) : List (String × Claimant) :=
  m.enums.flatMap (·.claims) ++ m.classes.map (·.claim) ++ m.functions.map (·.claim) ++
    m.arrayElements.map fun e => (e.arraySymbol, .arrayType e)

/-- The native names of a model. -/
def nativeNames (m : BindingModel) : List String := m.claims.map Prod.fst

lemma mem_arrayElements {m : BindingModel} {e : ManagedType} :
    e ∈ m.arrayElements ↔ ∃ f ∈ m.functions, e ∈ f.types.filterMap (·.element?) := by
  rw [arrayElements, List.mem_eraseDups, List.mem_flatMap]

lemma claims_subset_claims {m : BindingModel} {f : NativeFunction} (hf : f ∈ m.functions) :
    ∀ p ∈ f.claims, p ∈ m.claims := by
  intro p hp
  rcases List.mem_cons.mp hp with rfl | hp
  · refine List.mem_append_left _ (List.mem_append_right _ ?_)
    exact List.mem_map.mpr ⟨f, hf, rfl⟩
  · obtain ⟨e, he, rfl⟩ := List.mem_map.mp hp
    refine List.mem_append_right _ (List.mem_map.mpr ⟨e, ?_, rfl⟩)
    exact mem_arrayElements.mpr ⟨f, hf, he⟩

end BindingModel

/-! ### Every name of the model is in the table -/

namespace Draft

/-- The names of the model belong to what they stand for: of a function that needs one name for
two things, at least its symbol. -/
structure Recorded (d : Draft) : Prop where
  enums : ∀ e ∈ d.model.enums, ∀ p ∈ e.claims, d.Owns p
  classes : ∀ c ∈ d.model.classes, d.Owns c.claim
  functions : ∀ f ∈ d.model.functions, d.Owns f.claim
  arrays : ∀ f ∈ d.model.functions, f.NamesAgree → ∀ p ∈ f.claims, d.Owns p

namespace Recorded

lemma registers {d d' : Draft} (h : d.Recorded) (hr : d.Registers d') : d'.Recorded := by
  refine ⟨?_, ?_, ?_, ?_⟩
  · rw [hr.enums]
    exact fun e he p hp => hr.owns p (h.enums e he p hp)
  · rw [hr.classes]
    exact fun c hc => hr.owns _ (h.classes c hc)
  · rw [hr.functions]
    exact fun f hf => hr.owns _ (h.functions f hf)
  · rw [hr.functions]
    exact fun f hf hagree p hp => hr.owns p (h.arrays f hf hagree p hp)

lemma bindEnum {d : Draft} (h : d.Recorded) (new : Declared) : (d.bindEnum new).Recorded := by
  rcases d.bindEnum_cases new with hr | ⟨d', e, hr, heq, _, howns, _⟩
  · exact h.registers hr
  · have h' := h.registers hr
    rw [heq]
    refine ⟨?_, h'.classes, h'.functions, h'.arrays⟩
    intro e' he'
    rcases List.mem_append.mp he' with he' | he'
    · exact h'.enums e' he'
    · rw [List.mem_singleton.mp he']
      exact howns

lemma declareClass {d : Draft} (h : d.Recorded) (new : Declared) :
    (d.declareClass new).Recorded := by
  rcases d.declareClass_cases new with hr | ⟨d', c, hr, heq, _, _, howns⟩
  · exact h.registers hr
  · have h' := h.registers hr
    rw [heq]
    refine ⟨h'.enums, ?_, h'.functions, h'.arrays⟩
    intro c' hc'
    rcases List.mem_append.mp hc' with hc' | hc'
    · exact h'.classes c' hc'
    · rw [List.mem_singleton.mp hc']
      exact howns

lemma resolveBase {d : Draft} (h : d.Recorded) (decls : List Declared) (new : Declared) :
    (d.resolveBase decls new).Recorded := by
  rcases d.resolveBase_cases decls new with hr | ⟨base, heq⟩
  · exact h.registers hr
  · rw [heq]
    refine ⟨h.enums, ?_, h.functions, h.arrays⟩
    intro c hc
    have hclaim := map_setBase d.model new.path base BoundClass.claim fun _ _ => rfl
    have hmem : c.claim ∈ d.model.classes.map BoundClass.claim :=
      hclaim ▸ List.mem_map_of_mem hc
    obtain ⟨c', hc', hsame⟩ := List.mem_map.mp hmem
    rw [← hsame]
    exact h.classes c' hc'

lemma bindMember {d : Draft} (h : d.Recorded) (decls : List Declared) (owner : TypePath)
    (c : Candidate × Nat) : (d.bindMember decls owner c).Recorded := by
  rcases d.bindMember_cases decls owner c with hr | ⟨f, _, hfree, heq⟩
  · exact h.registers hr
  · have hr := registers_claimAll f.claims d
    have h' := h.registers hr
    rw [heq]
    -- enums and classes keep their names; what is new are those of `f`
    refine ⟨h'.enums, h'.classes, ?_, ?_⟩
    · intro g hg
      rcases List.mem_append.mp hg with hg | hg
      · exact h'.functions g hg
      · rw [List.mem_singleton.mp hg]
        exact owns_claimAll_head _ (hfree f.claim f.claim_mem_claims)
    · intro g hg hagree p hp
      rcases List.mem_append.mp hg with hg | hg
      · exact h'.arrays g hg hagree p hp
      · rw [List.mem_singleton.mp hg] at hagree hp
        -- the name went to some claim of `f`, and with one name `f` means one thing
        obtain ⟨q, hq, hname, howns⟩ := owns_claimAll f.claims d (fun q hq _ => hfree q hq) hp
        rw [hagree p hp q hq hname.symm]
        exact howns

lemma bindMembers {d : Draft} (h : d.Recorded) (decls : List Declared) (new : Declared) :
    (d.bindMembers decls new).Recorded := by
  rw [d.bindMembers_eq decls new]
  split
  · exact List.foldlRecOn _ _ h fun d' h' c _ => h'.bindMember decls new.path c
  · exact h

end Recorded

end Draft

/-! ### Different things are different claimants -/

lemma nodup_eraseDups {α : Type} [BEq α] [LawfulBEq α] :
    ∀ l : List α, l.eraseDups.Nodup
  | [] => List.nodup_nil
  | a :: l => by
    have hlen := List.length_filter_le (fun b => !b == a) l
    rw [List.eraseDups_cons, List.nodup_cons]
    refine ⟨?_, nodup_eraseDups (l.filter fun b => !b == a)⟩
    intro ha
    simpa using (List.mem_filter.mp (List.mem_eraseDups.mp ha)).2
termination_by l => l.length
decreasing_by
  rw [List.length_cons]
  omega

/-- Where no two elements have the same key, the element with a key is the one that is found. -/
lemma find?_eq_some_iff_of_nodup {α β : Type} [DecidableEq β] {key : α → β} {xs : List α}
    (h : (xs.map key).Nodup) {k : β} {x : α} :
    xs.find? (fun y => key y = k) = some x ↔ x ∈ xs ∧ key x = k := by
  constructor
  · intro hx
    exact ⟨List.mem_of_find?_eq_some hx, by simpa using List.find?_some hx⟩
  · rintro ⟨hx, rfl⟩
    cases hfound : xs.find? (fun y => key y = key x) with
    | none => simpa using List.find?_eq_none.mp hfound x hx
    | some y =>
      have hkey : key y = key x := by simpa using List.find?_some hfound
      rw [List.inj_on_of_nodup_map h (List.mem_of_find?_eq_some hfound) hx hkey]

/-- What a pass appends to a list is, in order, some of what its steps may append. -/
lemma foldl_appends {σ α β : Type} (view : σ → List β) (new : α → List β) (step : σ → α → σ)
    (h : ∀ s x, ∃ l, l.Sublist (new x) ∧ view (step s x) = view s ++ l) (xs : List α) :
    ∀ s, ∃ l, l.Sublist (xs.flatMap new) ∧ view (xs.foldl step s) = view s ++ l := by
  induction xs with
  | nil => intro s; exact ⟨[], List.Sublist.refl _, by simp⟩
  | cons x xs ih =>
    intro s
    obtain ⟨l, hl, heq⟩ := h s x
    obtain ⟨l', hl', heq'⟩ := ih (step s x)
    refine ⟨l ++ l', ?_, ?_⟩
    · rw [List.flatMap_cons]
      exact hl.append hl'
    · rw [List.foldl_cons, heq', heq, List.append_assoc]

/-- What a step of a pass appends is told from what the other steps append, if no two steps may
append the same. -/
lemma foldl_at {σ α β : Type} (view : σ → List β) (new : α → List β) (step : σ → α → σ)
    (h : ∀ s x, ∃ l, l.Sublist (new x) ∧ view (step s x) = view s ++ l)
    (R : σ → σ → Prop) (hrefl : ∀ s, R s s) (htrans : ∀ s₁ s₂ s₃, R s₁ s₂ → R s₂ s₃ → R s₁ s₃)
    (hstep : ∀ s x, R s (step s x)) {xs : List α} {x : α} (hx : x ∈ xs)
    (hnodup : (xs.flatMap new).Nodup) (s : σ) :
    ∃ s', R s s' ∧ R (step s' x) (xs.foldl step s) ∧
      (∀ k ∈ new x, k ∈ view s' → k ∈ view s) ∧
      ∀ k ∈ new x, k ∈ view (xs.foldl step s) → k ∈ view (step s' x) := by
  have hrun : ∀ (ys : List α) s, R s (ys.foldl step s) := by
    intro ys s
    exact List.foldlRecOn (motive := R s) ys step (hrefl s)
      fun s' h y _ => htrans s s' _ h (hstep s' y)
  obtain ⟨before, after, rfl⟩ := List.append_of_mem hx
  rw [List.flatMap_append, List.flatMap_cons] at hnodup
  obtain ⟨_, hrest, hbefore⟩ := List.nodup_append.mp hnodup
  obtain ⟨_, _, hafter⟩ := List.nodup_append.mp hrest
  obtain ⟨l, hl, heq⟩ := foldl_appends view new step h before s
  obtain ⟨l', hl', heq'⟩ := foldl_appends view new step h after
    (step (before.foldl step s) x)
  rw [List.foldl_append, List.foldl_cons]
  refine ⟨before.foldl step s, hrun before s, hrun after _, ?_, ?_⟩
  · intro k hk hmem
    rw [heq] at hmem
    rcases List.mem_append.mp hmem with hmem | hmem
    · exact hmem
    · exact absurd rfl (hbefore k (hl.mem hmem) k (List.mem_append_left _ hk))
  · intro k hk hmem
    rw [heq'] at hmem
    rcases List.mem_append.mp hmem with hmem | hmem
    · exact hmem
    · exact absurd rfl (hafter k hk k (hl'.mem hmem))

/-- A pass none of whose steps changes something does not change it. -/
lemma foldl_keeps {σ α β : Type} (view : σ → β) (step : σ → α → σ)
    (h : ∀ s x, view (step s x) = view s) (xs : List α) (s : σ) :
    view (xs.foldl step s) = view s :=
  List.foldlRecOn (motive := fun s' => view s' = view s) xs step rfl
    fun s' hs' x _ => (h s' x).trans hs'

/-- Each name is declared once. -/
lemma nodup_path_ofAssembly (a : Assembly) :
    ((Declared.ofAssembly a).1.map (·.path)).Nodup := by
  rw [Declared.ofAssembly, Declared.distinct]
  refine List.foldlRecOn (motive := fun s : List Declared × Draft =>
    (s.1.map Declared.path).Nodup) _ _ ?_ ?_
  · exact List.nodup_nil
  rintro ⟨kept, d⟩ hkept new _
  dsimp only
  split
  · exact hkept
  · rename_i hnew
    rw [List.map_append, List.nodup_append]
    refine ⟨hkept, by simp, ?_⟩
    rintro path hpath _ hsame rfl
    rw [List.map_singleton, List.mem_singleton] at hsame
    obtain ⟨old, hold, rfl⟩ := List.mem_map.mp hpath
    have hnone := Option.not_isSome_iff_eq_none.mp hnew
    have := List.find?_eq_none.mp hnone old hold
    simp [hsame] at this

/-- Collecting the declarations binds nothing. -/
lemma model_ofAssembly (a : Assembly) :
    let d := (Declared.ofAssembly a).2
    d.model.classes = [] ∧ d.model.enums = [] ∧ d.model.functions = [] := by
  rw [Declared.ofAssembly, Declared.distinct]
  refine List.foldlRecOn (motive := fun s : List Declared × Draft =>
    s.2.model.classes = [] ∧ s.2.model.enums = [] ∧ s.2.model.functions = [])
    _ _ ⟨rfl, rfl, rfl⟩ ?_
  rintro ⟨kept, d⟩ hd new _
  dsimp only
  split
  · exact hd
  · exact hd

namespace Candidate

/-- Of the candidates with one native name, no two have the same ordinal. -/
lemma nodup_withOrdinals (cs : List Candidate) :
    ∀ before : List String,
      ((withOrdinals before cs).map fun c => (c.1.nativeMember, c.2)).Nodup ∧
      ∀ c ∈ withOrdinals before cs, before.count c.1.nativeMember ≤ c.2 := by
  induction cs with
  | nil => intro before; simp [withOrdinals]
  | cons c cs ih =>
    intro before
    obtain ⟨hnodup, hle⟩ := ih (before ++ [c.nativeMember])
    have hcount : ∀ c' ∈ withOrdinals (before ++ [c.nativeMember]) cs,
        before.count c'.1.nativeMember ≤ c'.2 ∧
          (c'.1.nativeMember = c.nativeMember → before.count c.nativeMember < c'.2) := by
      intro c' hc'
      have h := hle c' hc'
      rw [List.count_append] at h
      refine ⟨by omega, fun hsame => ?_⟩
      rw [hsame, List.count_singleton_self] at h
      omega
    rw [withOrdinals]
    constructor
    · rw [List.map_cons, List.nodup_cons]
      refine ⟨?_, hnodup⟩
      intro hmem
      obtain ⟨c', hc', heq⟩ := List.mem_map.mp hmem
      obtain ⟨hname, hord⟩ := Prod.mk.inj heq
      have := (hcount c' hc').2 hname
      omega
    · intro c' hc'
      rcases List.mem_cons.mp hc' with rfl | hc'
      · exact Nat.le_refl _
      · exact (hcount c' hc').1

end Candidate

/-- With one ordinal, different members of a class have different symbols. -/
lemma memberSymbol_inj {path : TypePath} {ordinal : Nat} {m m' : String}
    (h : path.memberSymbol m ordinal = path.memberSymbol m' ordinal) : m = m' := by
  have hstem : path.symbol ++ "_" ++ m = path.symbol ++ "_" ++ m' := by
    unfold TypePath.memberSymbol at h
    dsimp only at h
    split at h
    · exact h
    · have hl := congrArg String.toList h
      simp only [String.toList_append] at hl
      apply String.toList_inj.mp
      simpa using hl
  have hl := congrArg String.toList hstem
  simp only [String.toList_append] at hl
  exact String.toList_inj.mp (List.append_cancel_left hl)

/-! ### The passes over an assembly -/

section Assembly

variable (a : Assembly)

/-- The name that a member claims for its function. -/
def Declared.memberClaim (new : Declared) (c : Candidate × Nat) : String × Claimant :=
  (new.path.memberSymbol c.1.nativeMember c.2, .function new.path c.1.member c.2)

/-- The names that the members of a declaration may claim for their functions. -/
def Declared.memberClaims (new : Declared) : List (String × Claimant) :=
  new.candidates.map new.memberClaim

lemma IsBinding.claim_eq {decls : List Declared} {m : BindingModel} {new : Declared}
    {c : Candidate × Nat} {f : NativeFunction} (h : IsBinding decls m new.path c.1 c.2 f) :
    f.claim = new.memberClaim c := by
  rw [NativeFunction.claim, h.symbol, h.owner, h.member, h.ordinal, Declared.memberClaim]

lemma Declared.nodup_memberClaims (new : Declared) : new.memberClaims.Nodup := by
  have hnodup : (new.candidates.map fun c => (c.1.nativeMember, c.2)).Nodup := by
    rw [candidates]
    split
    · exact (Candidate.nodup_withOrdinals _ []).1
    · exact List.nodup_nil
  refine List.Nodup.map_on ?_ (List.Nodup.of_map _ hnodup)
  intro c hc c' hc' heq
  obtain ⟨hsymbol, hclaimant⟩ := Prod.mk.inj heq
  have hord : c.2 = c'.2 := by
    injection hclaimant
  rw [hord] at hsymbol
  have hpair : (c.1.nativeMember, c.2) = (c'.1.nativeMember, c'.2) := by
    rw [memberSymbol_inj hsymbol, hord]
  exact List.inj_on_of_nodup_map hnodup hc hc' hpair

/-- No two members of an assembly claim the same name for the same function. -/
lemma nodup_memberClaims : ((Declared.ofAssembly a).1.flatMap Declared.memberClaims).Nodup := by
  refine List.nodup_flatMap.mpr ⟨fun new _ => new.nodup_memberClaims, ?_⟩
  -- members of different classes differ in the owner of the function
  have hpaths := List.pairwise_map.mp (nodup_path_ofAssembly a)
  refine hpaths.imp ?_
  intro new new' hne p hp hp'
  obtain ⟨c, _, rfl⟩ := List.mem_map.mp hp
  obtain ⟨c', _, heq⟩ := List.mem_map.mp hp'
  have hclaimant := (Prod.mk.inj heq).2
  injection hclaimant with hpath
  exact hne hpath.symm

/-- A step over the members of a class adds a function for the member, or none. -/
lemma Draft.bindMember_appends (decls : List Declared) (new : Declared) (d : Draft)
    (c : Candidate × Nat) :
    ∃ l, l.Sublist [new.memberClaim c] ∧
      (d.bindMember decls new.path c).model.functions.map (·.claim) =
        d.model.functions.map (·.claim) ++ l := by
  rcases d.bindMember_cases decls new.path c with hr | ⟨f, hf, _, heq⟩
  · refine ⟨[], List.nil_sublist _, ?_⟩
    rw [hr.functions, List.append_nil]
  · refine ⟨[f.claim], ?_, ?_⟩
    · rw [(isBinding_of_bindFunction hf).claim_eq]
    · rw [heq, List.map_append, List.map_singleton]

/-- A step over the classes adds functions for some of the members that are declared. -/
lemma Draft.bindMembers_appends (decls : List Declared) (d : Draft) (new : Declared) :
    ∃ l, l.Sublist new.memberClaims ∧
      (d.bindMembers decls new).model.functions.map (·.claim) =
        d.model.functions.map (·.claim) ++ l := by
  rw [d.bindMembers_eq decls new]
  split
  · rw [Declared.memberClaims, List.map_eq_flatMap]
    exact foldl_appends (fun d : Draft => d.model.functions.map (·.claim)) _
      (bindMember decls new.path) (bindMember_appends decls new) _ d
  · exact ⟨[], List.nil_sublist _, by rw [List.append_nil]⟩

/-- No function is bound before the members are. -/
lemma functions_typesOf : (Draft.typesOf a).model.functions = [] := by
  unfold Draft.typesOf
  dsimp only
  rw [foldl_keeps (fun d : Draft => d.model.functions) _ (Draft.functions_resolveBase _),
    foldl_keeps (fun d : Draft => d.model.functions) _ Draft.functions_declareClass,
    foldl_keeps (fun d : Draft => d.model.functions) _ Draft.functions_bindEnum]
  exact (model_ofAssembly a).2.2

/-- The enums of a model are those that the first pass adds. -/
lemma enums_ofAssembly :
    (BindingModel.ofAssembly a).enums =
      ((Declared.ofAssembly a).1.foldl Draft.bindEnum (Declared.ofAssembly a).2).model.enums := by
  unfold BindingModel.ofAssembly Draft.ofAssembly Draft.typesOf
  dsimp only
  rw [foldl_keeps (fun d : Draft => d.model.enums) _
      fun d new => (Draft.grows_bindMembers _ d new).enums,
    foldl_keeps (fun d : Draft => d.model.enums) _ (Draft.enums_resolveBase _),
    foldl_keeps (fun d : Draft => d.model.enums) _ Draft.enums_declareClass]

/-- The items of an enum of the model have different names, and an integral type. -/
lemma spec_of_mem_enums {e : BoundEnum} (he : e ∈ (BindingModel.ofAssembly a).enums) :
    (e.items.map (·.name)).Nodup ∧ e.underlying.isIntegral = true := by
  rw [enums_ofAssembly] at he
  refine List.foldlRecOn (motive := fun d : Draft => ∀ e ∈ d.model.enums,
    (e.items.map (·.name)).Nodup ∧ e.underlying.isIntegral = true) _ _ ?_ ?_ e he
  · rw [(model_ofAssembly a).2.1]
    intro e he
    cases he
  · intro d hd new _
    rcases d.bindEnum_cases new with hr | ⟨d', e, hr, heq, _, _, hitems, htype⟩
    · rw [hr.enums]
      exact hd
    · rw [heq]
      intro e' he'
      rcases List.mem_append.mp he' with he' | he'
      · exact hd e' (hr.enums ▸ he')
      · rw [List.mem_singleton.mp he']
        exact ⟨hitems, htype⟩

/-- The enums of a model have different paths. -/
lemma nodup_enums : ((BindingModel.ofAssembly a).enums.map (·.path)).Nodup := by
  obtain ⟨l, hl, heq⟩ := foldl_appends (fun d : Draft => d.model.enums.map (·.path))
    (fun new : Declared => [new.path]) Draft.bindEnum (by
      intro d new
      rcases d.bindEnum_cases new with hr | ⟨d', e, hr, heq, hpath, _⟩
      · exact ⟨[], List.nil_sublist _, by rw [hr.enums, List.append_nil]⟩
      · refine ⟨[new.path], List.Sublist.refl _, ?_⟩
        rw [heq, List.map_append, hr.enums, List.map_singleton, hpath])
    (Declared.ofAssembly a).1 (Declared.ofAssembly a).2
  rw [enums_ofAssembly, heq, (model_ofAssembly a).2.1, List.map_nil, List.nil_append]
  rw [← List.map_eq_flatMap] at hl
  exact hl.nodup (nodup_path_ofAssembly a)

/-- The paths of the classes of a model are those of the classes that the second pass adds. -/
lemma classPaths_ofAssembly :
    (BindingModel.ofAssembly a).classes.map (·.path) =
      ((Declared.ofAssembly a).1.foldl Draft.declareClass ((Declared.ofAssembly a).1.foldl
        Draft.bindEnum (Declared.ofAssembly a).2)).model.classes.map (·.path) := by
  unfold BindingModel.ofAssembly Draft.ofAssembly Draft.typesOf
  dsimp only
  rw [foldl_keeps (fun d : Draft => d.model.classes) _
      fun d new => (Draft.grows_bindMembers _ d new).classes,
    foldl_keeps (fun d : Draft => d.model.classes.map (·.path)) _
      fun d new => Draft.map_resolveBase _ d new _ fun _ _ => rfl]

/-- The classes of a model have different paths. -/
lemma nodup_classes : ((BindingModel.ofAssembly a).classes.map (·.path)).Nodup := by
  obtain ⟨l, hl, heq⟩ := foldl_appends (fun d : Draft => d.model.classes.map (·.path))
    (fun new : Declared => [new.path]) Draft.declareClass (by
      intro d new
      rcases d.declareClass_cases new with hr | ⟨d', c, hr, heq, hpath, _⟩
      · exact ⟨[], List.nil_sublist _, by rw [hr.classes, List.append_nil]⟩
      · refine ⟨[new.path], List.Sublist.refl _, ?_⟩
        rw [heq, List.map_append, hr.classes, List.map_singleton, hpath])
    (Declared.ofAssembly a).1
    ((Declared.ofAssembly a).1.foldl Draft.bindEnum (Declared.ofAssembly a).2)
  rw [classPaths_ofAssembly, heq, foldl_keeps (fun d : Draft => d.model.classes) _
    Draft.classes_bindEnum, (model_ofAssembly a).1, List.map_nil, List.nil_append]
  rw [← List.map_eq_flatMap] at hl
  exact hl.nodup (nodup_path_ofAssembly a)

/-- No two functions of a model claim the same symbol for the same member. -/
lemma nodup_functionClaims : ((BindingModel.ofAssembly a).functions.map (·.claim)).Nodup := by
  obtain ⟨l, hl, heq⟩ := foldl_appends (fun d : Draft => d.model.functions.map (·.claim))
    Declared.memberClaims (Draft.bindMembers (Declared.ofAssembly a).1)
    (Draft.bindMembers_appends _) (Declared.ofAssembly a).1 (Draft.typesOf a)
  have hview : (BindingModel.ofAssembly a).functions.map (·.claim) = l := by
    unfold BindingModel.ofAssembly Draft.ofAssembly
    dsimp only
    rw [heq, functions_typesOf, List.map_nil, List.nil_append]
  rw [hview]
  exact hl.nodup (nodup_memberClaims a)

/-- Every name of the model is in the table when the assembly is bound. -/
lemma recorded_ofAssembly : (Draft.ofAssembly a).Recorded := by
  obtain ⟨hclasses, henums, hfunctions⟩ := model_ofAssembly a
  have hstart : (Declared.ofAssembly a).2.Recorded := by
    refine ⟨?_, ?_, ?_, ?_⟩
    · rw [henums]; intro e he; cases he
    · rw [hclasses]; intro c hc; cases hc
    · rw [hfunctions]; intro f hf; cases hf
    · rw [hfunctions]; intro f hf; cases hf
  have htypes : (Draft.typesOf a).Recorded := by
    refine List.foldlRecOn _ _ ?_ fun d h new _ => h.resolveBase _ new
    refine List.foldlRecOn _ _ ?_ fun d h new _ => h.declareClass new
    exact List.foldlRecOn _ _ hstart fun d h new _ => h.bindEnum new
  exact List.foldlRecOn _ _ htypes fun d h new _ => h.bindMembers _ new

/-- The functions of a model have different symbols. -/
lemma nodup_symbols : ((BindingModel.ofAssembly a).functions.map (·.symbol)).Nodup := by
  have howns := (recorded_ofAssembly a).functions
  refine List.Nodup.map_on ?_ (List.Nodup.of_map _ (nodup_functionClaims a))
  intro f hf g hg hsymbol
  -- a symbol has one owner
  have hf' : (Draft.ofAssembly a).symbols.key? f.symbol = some _ := howns f hf
  have hg' : (Draft.ofAssembly a).symbols.key? g.symbol = some _ := howns g hg
  rw [hsymbol, hg'] at hf'
  have hclaim : f.claim = g.claim := Prod.ext hsymbol (Option.some.inj hf').symm
  exact List.inj_on_of_nodup_map (nodup_functionClaims a) hf hg hclaim

/-- The names of a model with their claimants are all different. -/
lemma nodup_claims : (BindingModel.ofAssembly a).claims.Nodup := by
  have henumClaims : ((BindingModel.ofAssembly a).enums.flatMap (·.claims)).Nodup := by
    refine List.nodup_flatMap.mpr ⟨?_, ?_⟩
    · intro e he
      refine List.nodup_cons.mpr ⟨by simp, ?_⟩
      have hnames := List.pairwise_map.mp (spec_of_mem_enums a he).1
      refine List.pairwise_map.mpr (hnames.imp ?_)
      intro i j hne heq
      injection (Prod.mk.inj heq).2 with _ hname
      exact hne hname
    · refine (List.pairwise_map.mp (nodup_enums a)).imp ?_
      intro e e' hne p hp hp'
      simp only [BoundEnum.claims, List.mem_cons, List.mem_map] at hp hp'
      rcases hp with rfl | ⟨i, _, rfl⟩
      · simp [hne] at hp'
      · simp [Ne.symm hne] at hp'
  have hclassClaims : ((BindingModel.ofAssembly a).classes.map (·.claim)).Nodup := by
    refine List.pairwise_map.mpr ((List.pairwise_map.mp (nodup_classes a)).imp ?_)
    intro c c' hne heq
    injection (Prod.mk.inj heq).2 with hpath
    exact hne hpath
  have harrayClaims : ((BindingModel.ofAssembly a).arrayElements.map fun e =>
      (e.arraySymbol, Claimant.arrayType e)).Nodup := by
    refine List.pairwise_map.mpr ((nodup_eraseDups _).imp ?_)
    intro e e' hne heq
    injection (Prod.mk.inj heq).2 with helement
    exact hne helement
  -- claimants of different kinds are different
  refine List.nodup_append.mpr ⟨List.nodup_append.mpr ⟨List.nodup_append.mpr
    ⟨henumClaims, hclassClaims, ?_⟩, nodup_functionClaims a, ?_⟩, harrayClaims, ?_⟩
  · intro p hp q hq
    obtain ⟨e, _, hp⟩ := List.mem_flatMap.mp hp
    obtain ⟨c, _, rfl⟩ := List.mem_map.mp hq
    simp only [BoundEnum.claims, List.mem_cons, List.mem_map] at hp
    rcases hp with rfl | ⟨i, _, rfl⟩ <;> simp [BoundClass.claim]
  · intro p hp q hq
    obtain ⟨f, _, rfl⟩ := List.mem_map.mp hq
    rcases List.mem_append.mp hp with hp | hp
    · obtain ⟨e, _, hp⟩ := List.mem_flatMap.mp hp
      simp only [BoundEnum.claims, List.mem_cons, List.mem_map] at hp
      rcases hp with rfl | ⟨i, _, rfl⟩ <;> simp [NativeFunction.claim]
    · obtain ⟨c, _, rfl⟩ := List.mem_map.mp hp
      simp [BoundClass.claim, NativeFunction.claim]
  · intro p hp q hq
    obtain ⟨t, _, rfl⟩ := List.mem_map.mp hq
    rcases List.mem_append.mp hp with hp | hp
    · rcases List.mem_append.mp hp with hp | hp
      · obtain ⟨e, _, hp⟩ := List.mem_flatMap.mp hp
        simp only [BoundEnum.claims, List.mem_cons, List.mem_map] at hp
        rcases hp with rfl | ⟨i, _, rfl⟩ <;> simp
      · obtain ⟨c, _, rfl⟩ := List.mem_map.mp hp
        simp [BoundClass.claim]
    · obtain ⟨f, _, rfl⟩ := List.mem_map.mp hp
      simp [NativeFunction.claim]

/-- The members of a class are bound at one moment of the last pass.  Later nothing is taken
back, and whether the member has a function is settled. -/
lemma bindMember_ofAssembly {new : Declared} (hnew : new ∈ (Declared.ofAssembly a).1)
    (hclass : ((BindingModel.ofAssembly a).class? new.path).isSome) {c : Candidate × Nat}
    (hc : c ∈ new.candidates) :
    ∃ d : Draft, (Draft.typesOf a).Grows d ∧
      (d.bindMember (Declared.ofAssembly a).1 new.path c).Grows (Draft.ofAssembly a) ∧
      new.memberClaim c ∉ d.model.functions.map (·.claim) ∧
      (new.memberClaim c ∈ (BindingModel.ofAssembly a).functions.map (·.claim) →
        new.memberClaim c ∈ (d.bindMember (Declared.ofAssembly a).1 new.path c).model.functions.map
          (·.claim)) := by
  -- the moment of the class among the declarations, and in it that of the member
  have hmem : new.memberClaim c ∈ new.memberClaims := List.mem_map_of_mem hc
  have hnodup := nodup_memberClaims a
  obtain ⟨d, hd, hfinal, hfresh, hkept⟩ := foldl_at
    (fun d : Draft => d.model.functions.map (·.claim)) Declared.memberClaims
    (Draft.bindMembers (Declared.ofAssembly a).1) (Draft.bindMembers_appends _)
    Draft.Grows (fun d => (Draft.Registers.refl d).grows) (fun _ _ _ => Draft.Grows.trans)
    (Draft.grows_bindMembers _) hnew hnodup (Draft.typesOf a)
  have hstep : d.bindMembers (Declared.ofAssembly a).1 new =
      new.candidates.foldl (Draft.bindMember (Declared.ofAssembly a).1 new.path) d := by
    have hclasses : (BindingModel.ofAssembly a).classes = d.model.classes :=
      hfinal.classes.trans (Draft.grows_bindMembers _ d new).classes
    rw [BindingModel.class?, hclasses] at hclass
    rw [d.bindMembers_eq, BindingModel.class?, if_pos hclass]
  have hown : new.memberClaims.Nodup := (List.nodup_flatMap.mp hnodup).1 new hnew
  rw [Declared.memberClaims, List.map_eq_flatMap] at hown
  obtain ⟨d', hd', hfinal', hfresh', hkept'⟩ := foldl_at
    (fun d : Draft => d.model.functions.map (·.claim)) (fun c => [new.memberClaim c])
    (Draft.bindMember (Declared.ofAssembly a).1 new.path) (Draft.bindMember_appends _ new)
    Draft.Grows (fun d => (Draft.Registers.refl d).grows) (fun _ _ _ => Draft.Grows.trans)
    (Draft.grows_bindMember _ new.path) hc hown d
  rw [hstep] at hfinal hkept
  have hhead : new.memberClaim c ∈ [new.memberClaim c] := List.mem_singleton_self _
  refine ⟨d', hd.trans hd', hfinal'.trans hfinal, ?_, ?_⟩
  · intro h
    have hstart := hfresh _ hmem (hfresh' _ hhead h)
    rw [functions_typesOf] at hstart
    cases hstart
  · intro h
    exact hkept' _ hhead (hkept _ hmem h)

/-- The names of a model are pairwise distinct as soon as those of each function are. -/
lemma nodup_nativeNames
    (h : ∀ f ∈ (BindingModel.ofAssembly a).functions, f.NamesAgree) :
    (BindingModel.ofAssembly a).nativeNames.Nodup := by
  have hrec := recorded_ofAssembly a
  have howns : ∀ p ∈ (BindingModel.ofAssembly a).claims, (Draft.ofAssembly a).Owns p := by
    intro p hp
    rcases List.mem_append.mp hp with hp | hp
    · rcases List.mem_append.mp hp with hp | hp
      · rcases List.mem_append.mp hp with hp | hp
        · obtain ⟨e, he, hp⟩ := List.mem_flatMap.mp hp
          exact hrec.enums e he p hp
        · obtain ⟨c, hc, rfl⟩ := List.mem_map.mp hp
          exact hrec.classes c hc
      · obtain ⟨f, hf, rfl⟩ := List.mem_map.mp hp
        exact hrec.functions f hf
    · obtain ⟨e, he, rfl⟩ := List.mem_map.mp hp
      obtain ⟨f, hf, hmem⟩ := BindingModel.mem_arrayElements.mp he
      refine hrec.arrays f hf (h f hf) _ ?_
      exact List.mem_cons_of_mem _ (List.mem_map.mpr ⟨e, hmem, rfl⟩)
  -- a name has one owner
  refine List.Nodup.map_on ?_ (nodup_claims a)
  intro p hp q hq hname
  have hp' : (Draft.ofAssembly a).symbols.key? p.1 = some p.2 := howns p hp
  have hq' : (Draft.ofAssembly a).symbols.key? q.1 = some q.2 := howns q hq
  rw [hname, hq'] at hp'
  exact Prod.ext hname (Option.some.inj hp').symm

/-- What becomes of a member that has a function: the function is in the model, and each name
that it needs belongs to the function or to one of its array types; or it is not in the model,
and the error names one of its names with the claimant that has it. -/
lemma function_added_or_refused {new : Declared} (hnew : new ∈ (Declared.ofAssembly a).1)
    (hclass : ((BindingModel.ofAssembly a).class? new.path).isSome) {c : Candidate × Nat}
    (hc : c ∈ new.candidates) {f : NativeFunction}
    (hf : bindFunction (Declared.ofAssembly a).1 (BindingModel.ofAssembly a) new.path c.1 c.2 =
      .ok f) :
    (f ∈ (BindingModel.ofAssembly a).functions ∧
      ∀ p ∈ f.claims, ∃ q ∈ f.claims, q.1 = p.1 ∧ (Draft.ofAssembly a).Owns q) ∨
    (f ∉ (BindingModel.ofAssembly a).functions ∧
      ∃ p ∈ f.claims, ∃ existing, existing ≠ p.2 ∧
        (Draft.ofAssembly a).Owns (p.1, existing) ∧
        (⟨.nameCollision p.1 (.function f.owner f.member f.ordinal) existing, f.span⟩ :
          BindingError) ∈ (BindingModel.ofAssembly a).errors) := by
  obtain ⟨d, _, hfinal, hfresh, hkept⟩ := bindMember_ofAssembly a hnew hclass hc
  have hclaim : f.claim = new.memberClaim c := (isBinding_of_bindFunction hf).claim_eq
  have hstep := d.grows_bindMember (Declared.ofAssembly a).1 new.path c
  have hsame : bindFunction (Declared.ofAssembly a).1 d.model new.path c.1 c.2 = .ok f := by
    rw [← hf]
    exact (bindFunction_congr (hfinal.classes.trans hstep.classes)
      (hfinal.enums.trans hstep.enums) _ _ _ _).symm
  rw [Draft.bindMember_ok hsame] at hfinal hkept
  rcases d.addFunction_cases f with ⟨p, hp, existing, howns, hne, heq⟩ | ⟨hfree, heq⟩
  · rw [heq] at hfinal hkept
    refine Or.inr ⟨?_, p, hp, existing, hne, hfinal.owns _ howns, ?_⟩
    · intro hmem
      rw [← hclaim] at hfresh hkept
      exact hfresh (hkept (List.mem_map_of_mem hmem))
    · exact hfinal.errors _ (List.mem_append_right _ (List.mem_singleton_self _))
  · rw [heq] at hfinal
    refine Or.inl ⟨hfinal.functions f (List.mem_append_right _ (List.mem_singleton_self f)), ?_⟩
    intro p hp
    obtain ⟨q, hq, hname, howns⟩ := Draft.owns_claimAll f.claims d (fun q hq _ => hfree q hq) hp
    exact ⟨q, hq, hname, hfinal.owns q howns⟩

end Assembly

/-- The native names of a model are pairwise distinct exactly when no function of it needs one
name for two things.  Clashes with what was bound before are always found: the function of a
member is in the model with all its names taken for it, or it is left out and reported for a
name that belongs to something else. -/
theorem nodup_nativeNames_iff (a : Assembly) :
    ((BindingModel.ofAssembly a).nativeNames.Nodup ↔
      ∀ f ∈ (BindingModel.ofAssembly a).functions, f.NamesAgree) ∧
    ∀ new ∈ (Declared.ofAssembly a).1, ((BindingModel.ofAssembly a).class? new.path).isSome →
      ∀ c ∈ new.candidates, ∀ f,
        bindFunction (Declared.ofAssembly a).1 (BindingModel.ofAssembly a) new.path c.1 c.2 =
          .ok f →
        (f ∈ (BindingModel.ofAssembly a).functions ∧
          ∀ p ∈ f.claims, ∃ q ∈ f.claims, q.1 = p.1 ∧ (Draft.ofAssembly a).Owns q) ∨
        (f ∉ (BindingModel.ofAssembly a).functions ∧
          ∃ p ∈ f.claims, ∃ existing, existing ≠ p.2 ∧
            (Draft.ofAssembly a).Owns (p.1, existing) ∧
            (⟨.nameCollision p.1 (.function f.owner f.member f.ordinal) existing, f.span⟩ :
              BindingError) ∈ (BindingModel.ofAssembly a).errors) := by
  refine ⟨⟨?_, nodup_nativeNames a⟩, ?_⟩
  · intro h f hf p hp q hq hname
    exact List.inj_on_of_nodup_map h (BindingModel.claims_subset_claims hf p hp)
      (BindingModel.claims_subset_claims hf q hq) hname
  · intro new hnew hclass c hc f hf
    exact function_added_or_refused a hnew hclass hc hf

/-- Two array types of one method have the same name, and no error is reported: the class that
is called like a primitive type gives its arrays the name of the arrays of that type. -/
theorem nativeNames_not_nodup :
    ∃ a, Assembly.ofText ("public class Int32 \x7b \x7d " ++
        "public class User \x7b public void f(int[] a, Int32[] b); \x7d") = .ok a ∧
      ¬ (BindingModel.ofAssembly a).nativeNames.Nodup ∧
      (BindingModel.ofAssembly a).errors = [] := by
  have hrun : (Assembly.ofText ("public class Int32 \x7b \x7d " ++
      "public class User \x7b public void f(int[] a, Int32[] b); \x7d")).toOption.any (fun a =>
        decide (¬ (BindingModel.ofAssembly a).nativeNames.Nodup) &&
          (BindingModel.ofAssembly a).errors.isEmpty) = true := by
    decide +kernel
  generalize Assembly.ofText _ = result at hrun ⊢
  cases result with
  | error e => cases hrun
  | ok a =>
    obtain ⟨hnames, herrors⟩ := Bool.and_eq_true_iff.mp hrun
    exact ⟨a, rfl, of_decide_eq_true hnames, List.isEmpty_iff.mp herrors⟩

end Interop.Model
