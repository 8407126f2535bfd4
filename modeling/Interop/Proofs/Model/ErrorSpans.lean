/-
# Where errors are

Binding puts each error where its cause stands: at a declaration, an item of an enum, the name of a
base, a member with one of its accessors, or a parameter.  So the errors about a tree whose spans
are nested in a text are all in the text (`Draft.ErrorsIn`).  Trees that are read of a text are
nested in it, and hence every text is refused for a fault in it, or else its tree is nested and the
errors of its binding are in the text.

Main result: `spans_nested`.
-/
import Interop.Proofs.Model.Bases
import Interop.Proofs.Model.WrittenTypes
import Interop.Proofs.Source.PlacedReading

namespace Interop.Model

open Source

variable {text : Span}

/-! ### Declarations -/

lemma Declared.ofItems_eq_flatMap (scope : List String) (items : List Item) :
    ofItems scope items = items.flatMap (ofItem scope) := by
  induction items with
  | nil => rfl
  | cons item items ih => rw [ofItems, ih, List.flatMap_cons]

/-- What an item declares, at any depth of namespaces, is nested where the item is. -/
lemma Declared.nestedIn_of_mem_ofItem {item : Item} (h : item.NestedIn text) :
    ∀ scope, ∀ new ∈ ofItem scope item, new.decl.NestedIn text := by
  induction h with
  | declared h => exact fun scope => List.forall_mem_singleton.mpr h
  | @inNamespace path items span outer hspan _ _ ih =>
    intro scope new hnew
    rw [ofItem, ofItems_eq_flatMap] at hnew
    obtain ⟨i, hi, hnew⟩ := List.mem_flatMap.mp hnew
    exact (ih i hi _ new hnew).mono hspan.within

lemma Declared.nestedIn_of_mem {a : Assembly} (h : a.NestedIn text) {new : Declared}
    (hnew : new ∈ ofItems [] a.items) : new.decl.NestedIn text := by
  rw [ofItems_eq_flatMap] at hnew
  obtain ⟨i, hi, hnew⟩ := List.mem_flatMap.mp hnew
  exact nestedIn_of_mem_ofItem (h.nested i hi) _ new hnew

/-! ### Members -/

/-- A member and its parameters stand in a text. -/
structure Candidate.In (text : Span) (c : Candidate) : Prop where
  span : c.span.Inside text
  params : ∀ p ∈ c.params, p.span.Inside text

namespace Candidate

lemma in_ofAccessor? {accessor : Option Accessor} {make : Span → Candidate} {span : Span}
    (hspan : span.Inside text) (haccessor : ∀ a ∈ accessor, a.span.Inside text)
    (hmake : ∀ s : Span, s.Inside text → (make s).In text) :
    ∀ c ∈ ofAccessor? accessor make span, c.In text := by
  cases accessor with
  | none => exact List.forall_mem_nil _
  | some a =>
    rw [ofAccessor?]
    split
    · exact List.forall_mem_singleton.mpr (hmake _ (hspan.merge (haccessor a rfl)))
    · exact List.forall_mem_nil _

lemma in_params {params : List Parameter} {s : Span} (h : Parameter.AllNestedIn params s)
    (hs : s.Within text) : ∀ p ∈ params.map paramOf, p.span.Inside text :=
  List.forall_mem_map.mpr fun p hp => (h.nested p hp).span.mono hs

/-- What a member is exported as stands where the member does. -/
lemma in_ofMember {m : Member} (h : m.NestedIn text) : ∀ c ∈ ofMember m, c.In text := by
  have hkind := h.kind
  rw [ofMember]
  split
  · exact List.forall_mem_nil _
  · split
    · rename_i hm
      rw [hm] at hkind
      split
      · exact List.forall_mem_nil _
      · exact List.forall_mem_singleton.mpr ⟨h.span, in_params hkind h.span.within⟩
    · rename_i hm
      rw [hm] at hkind
      exact List.forall_mem_singleton.mpr ⟨h.span, in_params hkind.1 h.span.within⟩
    · rename_i hm
      rw [hm] at hkind
      obtain ⟨-, hgetter, hsetter⟩ := hkind
      refine List.forall_mem_append.mpr ⟨?_, ?_⟩
      · refine in_ofAccessor? h.span (fun a ha => (hgetter a ha).mono h.span.within) ?_
        exact fun s hs => ⟨hs, List.forall_mem_nil _⟩
      · refine in_ofAccessor? h.span (fun a ha => (hsetter a ha).mono h.span.within) ?_
        exact fun s hs => ⟨hs, List.forall_mem_singleton.mpr hs⟩

end Candidate

lemma Declared.in_candidates {new : Declared} (h : new.decl.NestedIn text) :
    ∀ c ∈ new.candidates, c.1.In text := by
  intro c hc
  rw [candidates] at hc
  split at hc
  · rename_i body hbody
    have hnested : body.NestedIn new.decl.span := by
      have := h.body
      rwa [hbody] at this
    have hmem := Candidate.fst_mem_of_mem_withOrdinals _ hc
    rw [Candidate.ofClass] at hmem
    rcases List.mem_append.mp hmem with himplicit | hmember
    · split at himplicit
      · cases himplicit
      · rw [List.mem_singleton.mp himplicit]
        exact ⟨h.span, List.forall_mem_nil _⟩
    · obtain ⟨m, hm, hc⟩ := List.mem_flatMap.mp hmember
      have hmember := (hnested.members.nested m hm).mono h.span.within
      exact Candidate.in_ofMember hmember _ hc
  · cases hc

/-- The error for a member stands at the member or at one of its parameters. -/
lemma Candidate.In.of_bindFunction_error {decls : List Declared} {m : BindingModel}
    {owner : TypePath} {c : Candidate} {ordinal : Nat} {e : BindingError} (h : c.In text)
    (he : bindFunction decls m owner c ordinal = .error e) : e.span.Inside text := by
  have hbinds := binds_bindFunction decls m owner c ordinal
  rw [he] at hbinds
  cases hbinds with
  | static | returns | symbol => exact h.span
  | params _ hparams =>
    obtain ⟨p, hp, hfault⟩ := exists_of_mapM_error _ hparams
    have hspan : e.span = p.span := by
      rw [bindParam] at hfault
      split at hfault
      · cases hfault
        rfl
      · split at hfault
        · cases hfault
          rfl
        · cases hfault
    rw [hspan]
    exact h.params p hp

/-! ### Steps and passes -/

/-- The items that get a value, and the item at which a fault is found, are those of the enum. -/
lemma itemValues_items (underlying : Primitive) (items : List EnumItem) :
    ∀ (values : List (String × Int)) (next : Int),
      (∀ v ∈ (itemValues underlying values next items).1, v.1 ∈ items) ∧
      ∀ fault ∈ (itemValues underlying values next items).2, ∃ item ∈ items,
        fault.2 = item.span := by
  induction items with
  | nil =>
    refine fun _ _ => ⟨List.forall_mem_nil _, ?_⟩
    rintro _ ⟨⟩
  | cons item items ih =>
    intro values next
    have hhere : ∀ fault : EnumFault, ∀ f ∈ some (fault, item.span), ∃ i ∈ item :: items,
        f.2 = i.span := by
      rintro fault _ ⟨⟩
      exact ⟨item, List.mem_cons_self, rfl⟩
    rw [itemValues]
    split
    · exact ⟨List.forall_mem_nil _, hhere _⟩
    · rename_i v _
      dsimp only
      split
      · exact ⟨List.forall_mem_nil _, hhere _⟩
      · split
        · exact ⟨List.forall_mem_nil _, hhere _⟩
        · obtain ⟨hvalued, hfault⟩ := ih ((item.name, v) :: values) (v + 1)
          refine ⟨List.forall_mem_cons.mpr ⟨List.mem_cons_self, fun w hw => ?_⟩, fun f hf => ?_⟩
          · exact List.mem_cons_of_mem _ (hvalued w hw)
          · obtain ⟨i, hi, hspan⟩ := hfault f hf
            exact ⟨i, List.mem_cons_of_mem _ hi, hspan⟩

namespace Draft

/-- The errors of a draft are in a text. -/
def ErrorsIn (text : Span) (d : Draft) : Prop := ∀ e ∈ d.model.errors, e.span.Inside text

variable {d : Draft}

lemma ErrorsIn.report (h : d.ErrorsIn text) (fault : BindingFault) {span : Span}
    (hspan : span.Inside text) : (d.report fault span).ErrorsIn text :=
  List.forall_mem_append.mpr ⟨h, List.forall_mem_singleton.mpr hspan⟩

lemma ErrorsIn.claim (h : d.ErrorsIn text) (symbol : String) (claimant : Claimant) {span : Span}
    (hspan : span.Inside text) : (d.claim symbol claimant span).1.ErrorsIn text := by
  rcases d.claim_cases symbol claimant span with ⟨_, _, hc⟩ | ⟨_, _, _, _, hc⟩ | ⟨_, _, hc⟩
  · rw [hc]
    exact h.report _ hspan
  · rw [hc]
    exact h.report _ hspan
  · rw [hc]
    exact h

lemma ErrorsIn.claimItems (path : TypePath) (valued : List (EnumItem × Int))
    (hspans : ∀ v ∈ valued, v.1.span.Inside text) :
    ∀ {d : Draft}, d.ErrorsIn text → (d.claimItems path valued).1.ErrorsIn text := by
  induction valued with
  | nil => exact id
  | cons v valued ih =>
    intro d h
    obtain ⟨hspan, hspans⟩ := List.forall_mem_cons.mp hspans
    exact ih hspans (h.claim _ _ hspan)

lemma ErrorsIn.bindEnum (h : d.ErrorsIn text) {new : Declared} (hnew : new.decl.NestedIn text) :
    (d.bindEnum new).ErrorsIn text := by
  obtain ⟨path, decl⟩ := new
  rw [Draft.bindEnum]
  dsimp only at hnew ⊢
  split
  · rename_i body hbody
    have hitems : ∀ i ∈ body.items, i.span.Inside text := by
      have hnested : body.NestedIn decl.span := by
        have := hnew.body
        rwa [hbody] at this
      exact fun i hi => (hnested.items.nested i hi).span.mono hnew.span.within
    split
    · exact h
    · split
      · exact h.report _ hnew.span
      · rename_i underlying _
        obtain ⟨hvalued, hfault⟩ := itemValues_items underlying body.items [] 0
        have hclaim := h.claim path.symbol (.enumType path) hnew.span
        split
        · have hclaims := hclaim.claimItems path (itemValues underlying [] 0 body.items).1
            fun v hv => hitems _ (hvalued v hv)
          split
          · rename_i fault span hsome
            obtain ⟨item, hitem, rfl⟩ := hfault _ hsome
            exact hclaims.report _ (hitems item hitem)
          · exact hclaims
        · exact hclaim
  · exact h

lemma ErrorsIn.declareClass (h : d.ErrorsIn text) {new : Declared}
    (hnew : new.decl.NestedIn text) : (d.declareClass new).ErrorsIn text := by
  obtain ⟨path, decl⟩ := new
  rw [Draft.declareClass]
  dsimp only at hnew ⊢
  split
  · exact h
  · split
    · exact h
    · exact h.report _ hnew.span
    · have hclaim := h.claim path.symbol (.classType path) hnew.span
      split
      · exact hclaim
      · exact hclaim

lemma ErrorsIn.resolveBase (h : d.ErrorsIn text) (decls : List Declared) {new : Declared}
    (hnew : new.decl.NestedIn text) : (d.resolveBase decls new).ErrorsIn text := by
  rcases d.resolveBase_spec decls new with
    heq | ⟨name, members, hbody, -, ⟨base, -, heq⟩ | ⟨fault, -, heq⟩⟩
  · rw [heq]
    exact h
  · rw [heq]
    exact h
  · rw [heq]
    have hnested := hnew.body
    rw [hbody] at hnested
    exact h.report fault ((hnested.base name rfl).mono hnew.span.within)

lemma ErrorsIn.bindMember (h : d.ErrorsIn text) (decls : List Declared) (owner : TypePath)
    {c : Candidate × Nat} (hc : c.1.In text) : (d.bindMember decls owner c).ErrorsIn text := by
  cases hb : bindFunction decls d.model owner c.1 c.2 with
  | error e =>
    rw [bindMember_error hb]
    exact h.report _ (hc.of_bindFunction_error hb)
  | ok f =>
    rw [bindMember_ok hb]
    rcases d.addFunction_cases f with ⟨_, _, _, _, _, heq⟩ | ⟨_, heq⟩
    · rw [heq]
      exact h.report _ ((isBinding_of_bindFunction hb).span ▸ hc.span)
    · rw [heq]
      exact h

lemma ErrorsIn.bindMembers (h : d.ErrorsIn text) (decls : List Declared) {new : Declared}
    (hnew : new.decl.NestedIn text) : (d.bindMembers decls new).ErrorsIn text := by
  rw [d.bindMembers_eq decls new]
  split
  · exact List.foldlRecOn (motive := fun d : Draft => d.ErrorsIn text) _ _ h
      fun _ hd c hc => hd.bindMember decls new.path (Declared.in_candidates hnew c hc)
  · exact h

/-- A pass over declarations that are nested in a text. -/
lemma ErrorsIn.foldl {step : Draft → Declared → Draft} {decls : List Declared}
    (hstep : ∀ {d : Draft}, d.ErrorsIn text → ∀ {new : Declared}, new.decl.NestedIn text →
      (step d new).ErrorsIn text)
    (hdecls : ∀ new ∈ decls, new.decl.NestedIn text) (h : d.ErrorsIn text) :
    (decls.foldl step d).ErrorsIn text :=
  List.foldlRecOn (motive := fun d : Draft => d.ErrorsIn text) _ _ h
    fun _ hd new hnew => hstep hd (hdecls new hnew)

end Draft

lemma Declared.errorsIn_ofAssembly {a : Assembly} (h : a.NestedIn text) :
    (ofAssembly a).2.ErrorsIn text := by
  rw [ofAssembly, distinct]
  refine List.foldlRecOn (motive := fun s : List Declared × Draft => s.2.ErrorsIn text) _ _
    (List.forall_mem_nil _) ?_
  rintro ⟨kept, d⟩ hd new hnew
  dsimp only
  split
  · exact Draft.ErrorsIn.report hd _ (nestedIn_of_mem h hnew).span
  · exact hd

/-- The errors about a tree that is nested in a text are in the text. -/
lemma errorsIn_ofAssembly {a : Assembly} (h : a.NestedIn text) :
    (Draft.ofAssembly a).ErrorsIn text := by
  have hdecls : ∀ new ∈ (Declared.ofAssembly a).1, new.decl.NestedIn text :=
    fun new hnew => Declared.nestedIn_of_mem h (Declared.mem_ofItems hnew)
  have henums := Draft.ErrorsIn.foldl (fun h _ => h.bindEnum) hdecls (Declared.errorsIn_ofAssembly h)
  have hclasses := Draft.ErrorsIn.foldl (fun h _ => h.declareClass) hdecls henums
  have hbases := Draft.ErrorsIn.foldl (fun h _ => h.resolveBase (Declared.ofAssembly a).1) hdecls
    hclasses
  exact Draft.ErrorsIn.foldl (fun h _ => h.bindMembers (Declared.ofAssembly a).1) hdecls hbases

/-- A text is refused for a fault in it, or it is read: then the spans of its tree are nested in
the text, and the errors of its binding are in it. -/
theorem spans_nested (source : String) :
    match Assembly.ofText source with
    | .error e => e.span.Inside ⟨0, source.length⟩
    | .ok a => a.NestedIn ⟨0, source.length⟩ ∧
      ∀ e ∈ (BindingModel.ofAssembly a).errors, e.span.Inside ⟨0, source.length⟩ := by
  obtain ⟨herror, hok⟩ := Assembly.nested_of_ofText source
  cases hread : Assembly.ofText source with
  | error e => exact herror e hread
  | ok a => exact ⟨hok a hread, errorsIn_ofAssembly (hok a hread)⟩

end Interop.Model
