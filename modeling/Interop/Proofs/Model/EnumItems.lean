/-
# The items of enums

Each item gets the value of its expression over the items before it, or else one more than the item
before it (`Valued`).  An enum whose name is granted is in the model exactly if all its items have
values, these fit its type, and no two items have one name; the first item where that fails is the
one that is reported.  An item whose name is refused is left out, and the items after it count it
all the same.

Main result: `isSome_enum?_iff_valued`.
-/
import Interop.Proofs.Model.Collisions
import Interop.Proofs.Source.Spans
import Interop.Scalar
import Mathlib.Data.List.Induction

namespace Interop.Model

open Source

/-! ### Values -/

/-- The values of items by their names. -/
def environment (xs : List (EnumItem × Int)) : List (String × Int) :=
  xs.map fun x => (x.1.name, x.2)

/-- One more than the value of the last item, or 0 if there is none. -/
def nextValue (xs : List (EnumItem × Int)) : Int := (xs.getLast?.map (·.2 + 1)).getD 0

/-- The value of an item behind others: that of its expression, or else the next one. -/
def valueAfter (earlier : List (EnumItem × Int)) (item : EnumItem) : Except ExprFault Int :=
  match item.value with
  | some e => e.value (environment earlier)
  | none => .ok (nextValue earlier)

/-- Items with the values that they get one after the other. -/
def Valued (xs : List (EnumItem × Int)) : Prop :=
  ∀ earlier x later, xs = earlier ++ x :: later → valueAfter earlier x.1 = .ok x.2

/-- What is wrong with an item behind others. -/
inductive ItemFault (underlying : Primitive) (earlier : List (EnumItem × Int)) (item : EnumItem) :
    EnumFault → Prop
  | noValue {fault : ExprFault} (h : valueAfter earlier item = .error fault) :
    ItemFault underlying earlier item (.item item.name fault)
  | outOfRange {v : Int} (h : valueAfter earlier item = .ok v)
    (hrange : ¬ underlying.holds v = true) :
    ItemFault underlying earlier item (.outOfRange item.name v underlying)
  | repeated {v : Int} (h : valueAfter earlier item = .ok v)
    (hname : item.name ∈ earlier.map (·.1.name)) :
    ItemFault underlying earlier item (.duplicateItem item.name)

/-- Items of an enum with their values: all fit the type, and there is one of each name. -/
structure Fitting (underlying : Primitive) (xs : List (EnumItem × Int)) : Prop where
  valued : Valued xs
  holds : ∀ x ∈ xs, underlying.holds x.2 = true
  nodup : (xs.map (·.1.name)).Nodup

/-- The items that get values, and what is wrong with the item behind them, if there is one. -/
inductive Stops (underlying : Primitive) (items : List EnumItem) (xs : List (EnumItem × Int)) :
    Option (EnumFault × Span) → Prop
  | complete (hitems : xs.map (·.1) = items) : Stops underlying items xs none
  | stuck {item : EnumItem} {rest : List EnumItem} {fault : EnumFault}
    (hitems : items = xs.map (·.1) ++ item :: rest) (hfault : ItemFault underlying xs item fault) :
    Stops underlying items xs (some (fault, item.span))

lemma lookup_reverse {xs : List (String × Int)} (h : (xs.map (·.1)).Nodup) (name : String) :
    xs.reverse.lookup name = xs.lookup name := by
  induction xs with
  | nil => rfl
  | cons x xs ih =>
    obtain ⟨key, v⟩ := x
    obtain ⟨hkey, hrest⟩ := List.nodup_cons.mp h
    rw [List.reverse_cons, List.lookup_append, ih hrest]
    by_cases hname : name = key
    · subst hname
      have hnone : xs.lookup name = none := by
        rw [List.lookup_eq_none_iff]
        exact fun p hp => bne_iff_ne.mpr fun heq => hkey (List.mem_map.mpr ⟨p, hp, heq.symm⟩)
      simp [hnone]
    · simp [List.lookup_cons, beq_eq_false_iff_ne.mpr hname]

/-- Only what items are looked up as matters for a value. -/
lemma value_congr {values values' : List (String × Int)}
    (h : ∀ name, values.lookup name = values'.lookup name) (e : EnumExpr) :
    e.value values = e.value values' := by
  induction e with
  | literal => rfl
  | item name => rw [EnumExpr.value, EnumExpr.value, h]
  | negate operand _ ih => rw [EnumExpr.value, EnumExpr.value, ih]
  | shiftLeft left right ihleft ihright =>
    rw [EnumExpr.value, EnumExpr.value, ihleft, ihright]
  | bitOr left right ihleft ihright => rw [EnumExpr.value, EnumExpr.value, ihleft, ihright]

lemma Valued.append_singleton {xs : List (EnumItem × Int)} {item : EnumItem} {v : Int}
    (h : Valued xs) (hv : valueAfter xs item = .ok v) : Valued (xs ++ [(item, v)]) := by
  intro earlier x later heq
  rcases List.eq_nil_or_concat later with rfl | ⟨later, y, rfl⟩
  · obtain ⟨rfl, hx⟩ := List.append_inj' heq rfl
    obtain rfl := List.singleton_inj.mp hx
    exact hv
  · rw [List.concat_eq_append, ← List.cons_append, ← List.append_assoc] at heq
    exact h earlier x later (List.append_inj' heq rfl).1

lemma Valued.prefix {xs ys : List (EnumItem × Int)} (h : Valued (xs ++ ys)) : Valued xs := by
  intro earlier x later heq
  refine h earlier x (later ++ ys) ?_
  rw [heq, List.append_assoc, List.cons_append]

/-- Items have one value each. -/
lemma Valued.unique {xs ys : List (EnumItem × Int)} (hxs : Valued xs) (hys : Valued ys)
    (h : xs.map (·.1) = ys.map (·.1)) : xs = ys := by
  induction xs using List.reverseRecOn generalizing ys with
  | nil => exact (List.map_eq_nil_iff.mp h.symm).symm
  | append_singleton xs x ih =>
    rcases List.eq_nil_or_concat ys with rfl | ⟨ys, y, rfl⟩
    · simp at h
    · rw [List.concat_eq_append] at hys h ⊢
      rw [List.map_append, List.map_append] at h
      obtain ⟨hitems, hlast⟩ := List.append_inj' h rfl
      obtain rfl := ih hxs.prefix hys.prefix hitems
      have hitem : x.1 = y.1 := List.singleton_inj.mp hlast
      have hx := hxs xs x [] rfl
      rw [hitem, hys xs y [] rfl] at hx
      rw [Prod.ext hitem (Except.ok.inj hx).symm]

/-! ### Giving values -/

section

variable {underlying : Primitive}

/-- The range that values are checked against is that of the type. -/
lemma outside_iff (h : underlying.isIntegral = true) (v : Int) :
    (v < (underlying.integerRange?.getD (-twoPow 127, twoPow 127 - 1)).1 ∨
      (underlying.integerRange?.getD (-twoPow 127, twoPow 127 - 1)).2 < v) ↔
      ¬ underlying.holds v = true := by
  obtain ⟨lo, hi, hrange, -⟩ := Primitive.exists_integerRange? h
  rw [Primitive.holds, hrange, Option.getD_some]
  dsimp only
  rw [Bool.and_eq_true, decide_eq_true_eq, decide_eq_true_eq]
  omega

lemma isSome_lookup_environment {earlier : List (EnumItem × Int)} {name : String} :
    ((environment earlier).lookup name).isSome ↔ name ∈ earlier.map (·.1.name) := by
  rw [← Option.ne_none_iff_isSome, ne_eq, List.lookup_eq_none_iff, List.mem_map]
  simp only [environment, List.forall_mem_map, not_forall, exists_prop]
  refine exists_congr fun x => and_congr_right fun _ => ?_
  rw [bne_iff_ne, not_not, eq_comm]

lemma valueAfter_eq {earlier : List (EnumItem × Int)} (hnodup : (earlier.map (·.1.name)).Nodup)
    (item : EnumItem) :
    (match item.value with
      | some e => e.value (environment earlier).reverse
      | none => .ok (nextValue earlier)) = valueAfter earlier item := by
  have hkeys : ((environment earlier).map (·.1)).Nodup := by
    rw [environment, List.map_map]
    exact hnodup
  unfold valueAfter
  split
  · exact value_congr (lookup_reverse hkeys) _
  · rfl

/-- The run over the items from one of them on, in terms of the items before it. -/
lemma itemValues_cons (hintegral : underlying.isIntegral = true) {earlier : List (EnumItem × Int)}
    (hnodup : (earlier.map (·.1.name)).Nodup) (item : EnumItem) (items : List EnumItem) :
    itemValues underlying (environment earlier).reverse (nextValue earlier) (item :: items) =
      match valueAfter earlier item with
      | .error fault => ([], some (.item item.name fault, item.span))
      | .ok v =>
        if ¬ underlying.holds v = true then
          ([], some (.outOfRange item.name v underlying, item.span))
        else if item.name ∈ earlier.map (·.1.name) then
          ([], some (.duplicateItem item.name, item.span))
        else
          let run := itemValues underlying (environment (earlier ++ [(item, v)])).reverse
            (nextValue (earlier ++ [(item, v)])) items
          ((item, v) :: run.1, run.2) := by
  have hkeys : ((environment earlier).map (·.1)).Nodup := by
    rw [environment, List.map_map]
    exact hnodup
  have hvalue := valueAfter_eq hnodup item
  rw [itemValues]
  dsimp only
  split
  · rename_i hfault
    rw [hvalue.symm.trans hfault]
  · rename_i v hv
    rw [hvalue.symm.trans hv]
    have hnext : nextValue (earlier ++ [(item, v)]) = v + 1 := by simp [nextValue]
    have henv : (environment (earlier ++ [(item, v)])).reverse =
        (item.name, v) :: (environment earlier).reverse := by simp [environment]
    dsimp only
    rw [hnext, henv, lookup_reverse hkeys]
    simp only [outside_iff hintegral v, isSome_lookup_environment]

lemma Fitting.append_singleton {xs : List (EnumItem × Int)} {item : EnumItem} {v : Int}
    (h : Fitting underlying xs) (hv : valueAfter xs item = .ok v)
    (hrange : underlying.holds v = true) (hname : item.name ∉ xs.map (·.1.name)) :
    Fitting underlying (xs ++ [(item, v)]) := by
  refine ⟨h.valued.append_singleton hv, ?_, ?_⟩
  · intro x hx
    rcases List.mem_append.mp hx with hx | hx
    · exact h.holds x hx
    · rw [List.mem_singleton.mp hx]
      exact hrange
  · rw [List.map_append]
    exact h.nodup.append (List.nodup_singleton _) (List.disjoint_singleton.mpr hname)

/-- What has got values behind other items fits like these, and the run goes on up to the first
item that does not. -/
lemma itemValues_spec (hintegral : underlying.isIntegral = true) (items : List EnumItem) :
    ∀ {earlier : List (EnumItem × Int)}, Fitting underlying earlier →
      let run := itemValues underlying (environment earlier).reverse (nextValue earlier) items
      Fitting underlying (earlier ++ run.1) ∧
        Stops underlying (earlier.map (·.1) ++ items) (earlier ++ run.1) run.2 := by
  induction items with
  | nil =>
    intro earlier h
    rw [itemValues]
    dsimp only
    rw [List.append_nil, List.append_nil]
    exact ⟨h, .complete rfl⟩
  | cons item items ih =>
    intro earlier h
    rw [itemValues_cons hintegral h.nodup]
    cases hv : valueAfter earlier item with
    | error fault =>
      dsimp only
      rw [List.append_nil]
      exact ⟨h, .stuck rfl (.noValue hv)⟩
    | ok v =>
      dsimp only
      by_cases hrange : underlying.holds v = true
      · rw [if_neg (not_not.mpr hrange)]
        by_cases hname : item.name ∈ earlier.map (·.1.name)
        · rw [if_pos hname, List.append_nil]
          exact ⟨h, .stuck rfl (.repeated hv hname)⟩
        · rw [if_neg hname]
          have hrest := ih (h.append_singleton hv hrange hname)
          dsimp only at hrest
          rw [List.map_append, List.append_assoc, List.append_assoc] at hrest
          exact hrest
      · rw [if_pos hrange, List.append_nil]
        exact ⟨h, .stuck rfl (.outOfRange hv hrange)⟩

lemma stops_itemValues (hintegral : underlying.isIntegral = true) (items : List EnumItem) :
    Fitting underlying (itemValues underlying [] 0 items).1 ∧
      Stops underlying items (itemValues underlying [] 0 items).1
        (itemValues underlying [] 0 items).2 := by
  have hnone : Valued [] := by
    intro earlier x later h
    cases List.append_eq_nil_iff.mp h.symm |>.2
  exact itemValues_spec hintegral items ⟨hnone, nofun, List.nodup_nil⟩

/-- Behind items that fit, nothing is wrong with an item that continues other such items. -/
lemma ItemFault.not_valued {xs ys later : List (EnumItem × Int)} {x : EnumItem × Int}
    {fault : EnumFault} (h : ItemFault underlying xs x.1 fault) (hxs : Valued xs)
    (hys : Valued (ys ++ x :: later)) (hitems : ys.map (·.1) = xs.map (·.1))
    (hrange : underlying.holds x.2 = true) (hname : x.1.name ∉ ys.map (·.1.name)) : False := by
  obtain rfl := hys.prefix.unique hxs hitems
  have hvalue := hys ys x later rfl
  cases h with
  | noValue h => cases hvalue.symm.trans h
  | outOfRange h hout =>
    obtain rfl := Except.ok.inj (hvalue.symm.trans h)
    exact hout hrange
  | repeated _ hmem => exact hname hmem

/-- All items get values exactly if there are values for all that fit, and no name is repeated. -/
lemma itemValues_complete_iff (hintegral : underlying.isIntegral = true)
    (items : List EnumItem) :
    (itemValues underlying [] 0 items).2 = none ↔
      (items.map (·.name)).Nodup ∧ ∃ xs : List (EnumItem × Int), xs.map (·.1) = items ∧
        Valued xs ∧ ∀ x ∈ xs, underlying.holds x.2 = true := by
  obtain ⟨hfit, hstops⟩ := stops_itemValues hintegral items
  generalize itemValues underlying [] 0 items = run at hfit hstops ⊢
  obtain ⟨xs, fault?⟩ := run
  cases hstops with
  | complete hitems =>
    refine ⟨fun _ => ⟨?_, xs, hitems, hfit.valued, hfit.holds⟩, fun _ => rfl⟩
    rw [← hitems, List.map_map]
    exact hfit.nodup
  | @stuck item rest fault hitems hfault =>
    refine ⟨nofun, ?_⟩
    rintro ⟨hnodup, ys, hys, hvalued, hholds⟩
    -- the values of the items before are the ones that the run has found
    obtain ⟨ys₁, tail, rfl, hbefore, htail⟩ := List.map_eq_append_iff.mp (hys.trans hitems)
    obtain ⟨x, later, rfl, rfl, -⟩ := List.map_eq_cons_iff.mp htail
    refine (hfault.not_valued hfit.valued hvalued hbefore (hholds x (by simp)) ?_).elim
    rw [← hys, List.map_map, List.map_append] at hnodup
    exact fun hmem => (List.nodup_append.mp hnodup).2.2 _ hmem _ List.mem_cons_self rfl

end

/-! ### Names -/

/-- The items of an enum that have the names made for them, with the errors about the others, each
of which is no identifier or belongs to something else. -/
inductive Kept (d : Draft) (path : TypePath) :
    List (EnumItem × Int) → List BoundEnumItem → List BindingError → Prop
  | nil : Kept d path [] [] []
  | granted {item : EnumItem} {v : Int} {xs : List (EnumItem × Int)} {items : List BoundEnumItem}
    {refused : List BindingError} (hvalid : nameFault? (path.itemSymbol item.name) = none)
    (howns : d.Owns (path.itemSymbol item.name, .enumItem path item.name))
    (hrest : Kept d path xs items refused) :
    Kept d path ((item, v) :: xs) (⟨item.name, path.itemSymbol item.name, v⟩ :: items) refused
  | invalid {item : EnumItem} {v : Int} {xs : List (EnumItem × Int)} {items : List BoundEnumItem}
    {refused : List BindingError} {fault : NameFault}
    (hinvalid : nameFault? (path.itemSymbol item.name) = some fault)
    (hrest : Kept d path xs items refused) :
    Kept d path ((item, v) :: xs) items
      (⟨.invalidIdentifier (path.itemSymbol item.name)
        (Claimant.enumItem path item.name).description fault, item.span⟩ :: refused)
  | collision {item : EnumItem} {v : Int} {xs : List (EnumItem × Int)} {items : List BoundEnumItem}
    {refused : List BindingError} {existing : Claimant}
    (hvalid : nameFault? (path.itemSymbol item.name) = none)
    (hne : existing ≠ .enumItem path item.name)
    (howns : d.Owns (path.itemSymbol item.name, existing)) (hrest : Kept d path xs items refused) :
    Kept d path ((item, v) :: xs) items
      (⟨.nameCollision (path.itemSymbol item.name) (.enumItem path item.name) existing,
        item.span⟩ :: refused)

/-- The errors about the names of items are not about the content of an enum. -/
lemma Kept.ne_invalidEnum {d : Draft} {path : TypePath} {xs : List (EnumItem × Int)}
    {items : List BoundEnumItem} {refused : List BindingError} (h : Kept d path xs items refused) :
    ∀ e ∈ refused, ∀ other fault, e.fault ≠ .invalidEnum other fault := by
  induction h with
  | nil => exact nofun
  | granted _ _ _ ih => exact ih
  | invalid _ _ ih | collision _ _ _ _ ih => exact List.forall_mem_cons.mpr ⟨nofun, ih⟩

/-- The items that are kept have their values. -/
lemma Kept.exists_of_mem {d : Draft} {path : TypePath} {xs : List (EnumItem × Int)}
    {items : List BoundEnumItem} {refused : List BindingError} (h : Kept d path xs items refused) :
    ∀ i ∈ items, ∃ x ∈ xs, x.1.name = i.name ∧ x.2 = i.value := by
  induction h with
  | nil => exact nofun
  | granted _ _ _ ih =>
    refine List.forall_mem_cons.mpr ⟨⟨_, List.mem_cons_self, rfl, rfl⟩, fun i hi => ?_⟩
    obtain ⟨x, hx, hitem⟩ := ih i hi
    exact ⟨x, List.mem_cons_of_mem _ hx, hitem⟩
  | invalid _ _ ih | collision _ _ _ _ ih =>
    intro i hi
    obtain ⟨x, hx, hitem⟩ := ih i hi
    exact ⟨x, List.mem_cons_of_mem _ hx, hitem⟩

/-- Names that are owned stay so. -/
lemma Kept.mono {d d' : Draft} {path : TypePath} {xs : List (EnumItem × Int)}
    {items : List BoundEnumItem} {refused : List BindingError} (h : Kept d path xs items refused)
    (howns : ∀ p, d.Owns p → d'.Owns p) : Kept d' path xs items refused := by
  induction h with
  | nil => exact .nil
  | granted hvalid hmine _ ih => exact .granted hvalid (howns _ hmine) ih
  | invalid hinvalid _ ih => exact .invalid hinvalid ih
  | collision hvalid hne hother _ ih => exact .collision hvalid hne (howns _ hother) ih

namespace Draft

/-- An item is left out if its name is refused, and has no effect on the others. -/
lemma kept_claimItems (path : TypePath) (xs : List (EnumItem × Int)) :
    ∀ d : Draft, ∃ refused,
      Kept (d.claimItems path xs).1 path xs (d.claimItems path xs).2 refused ∧
      (d.claimItems path xs).1.model = { d.model with errors := d.model.errors ++ refused } := by
  induction xs with
  | nil => exact fun d => ⟨[], .nil, by rw [claimItems, List.append_nil]⟩
  | cons x xs ih =>
    intro d
    obtain ⟨item, v⟩ := x
    rw [claimItems]
    dsimp only
    have howns := (registers_claimItems path xs
      (d.claim (path.itemSymbol item.name) (.enumItem path item.name) item.span).1).owns
    obtain ⟨refused, hkept, hmodel⟩ := ih
      (d.claim (path.itemSymbol item.name) (.enumItem path item.name) item.span).1
    rcases d.claim_cases (path.itemSymbol item.name) (.enumItem path item.name) item.span with
      ⟨fault, hinvalid, hclaim⟩ | ⟨owner, hvalid, howner, hne, hclaim⟩ | ⟨hvalid, hfree, hclaim⟩
    · rw [hclaim] at hkept hmodel ⊢
      refine ⟨_, .invalid hinvalid hkept, hmodel.trans ?_⟩
      rw [report, List.append_assoc, List.singleton_append]
    · rw [hclaim] at howns hkept hmodel ⊢
      have hother : d.Owns (path.itemSymbol item.name, owner.key) := by
        rw [Owns, SymbolTable.key?, howner, Option.map_some]
      refine ⟨_, .collision hvalid hne (howns _ hother) hkept, hmodel.trans ?_⟩
      rw [report, List.append_assoc, List.singleton_append]
    · rw [hclaim] at howns hkept hmodel ⊢
      exact ⟨refused, .granted hvalid (howns _ (SymbolTable.key?_claim_self hfree)) hkept, hmodel⟩

end Draft

/-! ### Steps and passes -/

/-- What an enum is bound as, but for its items. -/
def Declared.boundEnum (new : Declared) (underlying : Primitive) (items : List BoundEnumItem) :
    BoundEnum :=
  ⟨new.path, new.path.symbol, underlying, new.decl.hasAttribute "Flags", items, new.decl.span⟩

/-- What the step over an enum adds, given what is wrong with the items, if anything is. -/
def addEnum (m : BindingModel) (e : BoundEnum) (refused : List BindingError) :
    Option (EnumFault × Span) → BindingModel
  | none => { m with enums := m.enums ++ [e], errors := m.errors ++ refused }
  | some (fault, span) =>
    { m with errors := m.errors ++ refused ++ [⟨.invalidEnum e.path fault, span⟩] }

lemma enum?_addEnum {m : BindingModel} (e : BoundEnum) (refused : List BindingError)
    (h : m.enum? e.path = none) : (addEnum m e refused none).enum? e.path = some e := by
  rw [BindingModel.enum?] at h ⊢
  rw [addEnum, List.find?_append, h, Option.none_or]
  exact List.find?_cons_of_pos (decide_eq_true rfl)

/-- The step over a public enum whose type is integral and whose name is granted. -/
lemma Draft.bindEnum_claimed (d : Draft) {new : Declared} {body : EnumBody} {underlying : Primitive}
    (hpublic : new.decl.visibility = .publicAccess) (hbody : new.decl.body = .enumBody body)
    (htype : itemType body = .ok underlying)
    (hclaimed : (d.claim new.path.symbol (.enumType new.path) new.decl.span).2 = true) :
    ∃ items refused,
      Kept (d.bindEnum new) new.path (itemValues underlying [] 0 body.items).1 items refused ∧
      (d.bindEnum new).model = addEnum d.model (new.boundEnum underlying items) refused
        (itemValues underlying [] 0 body.items).2 := by
  have hmodel : (d.claim new.path.symbol (.enumType new.path) new.decl.span).1.model = d.model := by
    rcases d.claim_cases new.path.symbol (.enumType new.path) new.decl.span with
      ⟨_, _, hc⟩ | ⟨_, _, _, _, hc⟩ | ⟨_, _, hc⟩
    · rw [hc] at hclaimed
      cases hclaimed
    · rw [hc] at hclaimed
      cases hclaimed
    · rw [hc]
  obtain ⟨path, decl⟩ := new
  dsimp only at hpublic hbody hclaimed hmodel ⊢
  obtain ⟨refused, hkept, hitems⟩ := kept_claimItems path
    (itemValues underlying [] 0 body.items).1 (d.claim path.symbol (.enumType path) decl.span).1
  rw [hmodel] at hitems
  simp only [bindEnum, hbody, hpublic, htype, hclaimed, ne_eq, not_true_eq_false, if_false, if_true]
  generalize itemValues underlying [] 0 body.items = run at hkept hitems ⊢
  generalize claimItems _ path run.1 = claimed at hkept hitems ⊢
  refine ⟨claimed.2, refused, ?_⟩
  cases run.2 with
  | none =>
    refine ⟨hkept.mono fun _ h => h, ?_⟩
    simp only [hitems, addEnum, Declared.boundEnum]
  | some fault =>
    refine ⟨hkept.mono fun _ h => h, ?_⟩
    simp only [report, hitems, addEnum, Declared.boundEnum]

/-- Those of some errors that are about the content of an enum. -/
def contentErrors (path : TypePath) (errors : List BindingError) : List BindingError :=
  errors.filter fun e =>
    match e.fault with
    | .invalidEnum other _ => other = path
    | _ => false

section

variable {path : TypePath}

lemma contentErrors_eq_nil {errors : List BindingError}
    (h : ∀ e ∈ errors, ∀ fault, e.fault ≠ .invalidEnum path fault) :
    contentErrors path errors = [] := by
  refine List.filter_eq_nil_iff.mpr fun e he hcontent => ?_
  split at hcontent
  · rename_i other fault hfault
    obtain rfl := of_decide_eq_true hcontent
    exact h e he fault hfault
  · cases hcontent

lemma contentErrors_append (errors errors' : List BindingError) :
    contentErrors path (errors ++ errors') =
      contentErrors path errors ++ contentErrors path errors' := by
  simp only [contentErrors, List.filter_append]

lemma contentErrors_singleton (fault : EnumFault) (span : Span) :
    contentErrors path [⟨.invalidEnum path fault, span⟩] = [⟨.invalidEnum path fault, span⟩] :=
  List.filter_cons_of_pos (decide_eq_true rfl)

/-- Added errors that are about something else do not count. -/
lemma Draft.Gains.contentErrors_eq {d d' : Draft} {g : Gain} (hgains : d.Gains d' g)
    (h : ∀ e ∈ g.errors, ∀ fault, e.fault ≠ .invalidEnum path fault) :
    contentErrors path d'.model.errors = contentErrors path d.model.errors := by
  rw [hgains.errors, contentErrors_append, contentErrors_eq_nil h, List.append_nil]

lemma Draft.Gains.enum?_eq {d d' : Draft} {g : Gain} (hgains : d.Gains d' g)
    (h : ∀ e ∈ g.enums, e.path ≠ path) : d'.model.enum? path = d.model.enum? path := by
  have hnone : g.enums.find? (·.path = path) = none :=
    List.find?_eq_none.mpr fun e he => by simpa using h e he
  rw [BindingModel.enum?, BindingModel.enum?, hgains.enums, List.find?_append, hnone,
    Option.or_none]

/-- The step over another declaration neither adds the enum nor reports its content. -/
lemma Draft.bindEnum_other (d : Draft) {other : Declared} (hother : other.path ≠ path) :
    (d.bindEnum other).model.enum? path = d.model.enum? path ∧
      contentErrors path (d.bindEnum other).model.errors = contentErrors path d.model.errors := by
  obtain ⟨g, hgain, hgains⟩ := d.gains_bindEnum other
  constructor
  · refine hgains.enum?_eq ?_
    cases hgain with
    | bound _ _ hpath => exact List.forall_mem_singleton.mpr (hpath ▸ hother)
    | hidden | other | leftOut => exact nofun
  · refine hgains.contentErrors_eq fun e he fault hfault => ?_
    obtain ⟨_, span⟩ := e
    obtain rfl := hfault
    exact hother (hgain.leaves_out he).1

lemma Draft.foldl_bindEnum_other {others : List Declared}
    (hothers : ∀ other ∈ others, other.path ≠ path) (d : Draft) :
    (others.foldl bindEnum d).model.enum? path = d.model.enum? path ∧
      contentErrors path (others.foldl bindEnum d).model.errors =
        contentErrors path d.model.errors := by
  refine List.foldlRecOn (motive := fun d' : Draft => d'.model.enum? path = d.model.enum? path ∧
    contentErrors path d'.model.errors = contentErrors path d.model.errors) _ _ ⟨rfl, rfl⟩ ?_
  rintro d' ⟨henum, herrors⟩ other hmem
  obtain ⟨henum', herrors'⟩ := d'.bindEnum_other (hothers other hmem)
  exact ⟨henum'.trans henum, herrors'.trans herrors⟩

/-- After the enums nothing is reported about their content. -/
lemma contentErrors_ofAssembly (a : Assembly) :
    contentErrors path (BindingModel.ofAssembly a).errors =
      contentErrors path ((Declared.ofAssembly a).1.foldl Draft.bindEnum
        (Declared.ofAssembly a).2).model.errors := by
  unfold BindingModel.ofAssembly Draft.ofAssembly Draft.typesOf
  dsimp only
  rw [foldl_keeps (fun d : Draft => contentErrors path d.model.errors) _ fun d new => ?members,
    foldl_keeps (fun d : Draft => contentErrors path d.model.errors) _ fun d new => ?bases,
    foldl_keeps (fun d : Draft => contentErrors path d.model.errors) _ fun d new => ?classes]
  case members =>
    obtain ⟨os, hos, hgains⟩ := d.gains_bindMembers (Declared.ofAssembly a).1 new
    rw [Gain.sum_outcomes] at hgains
    refine hgains.contentErrors_eq fun e he fault => ?_
    obtain ⟨o, ho, herror⟩ := List.mem_filterMap.mp he
    obtain ⟨_, c, _, houtcome⟩ := hos.exists_candidate ho
    cases o with
    | ok => cases herror
    | error e =>
      obtain rfl := Option.some.inj herror
      exact houtcome.ne_invalidEnum fault
  case bases =>
    obtain ⟨g, hgain, hgains⟩ := d.gains_resolveBase (Declared.ofAssembly a).1 new
    exact hgains.contentErrors_eq hgain.ne_invalidEnum
  case classes =>
    obtain ⟨g, hgain, hgains⟩ := d.gains_declareClass new
    exact hgains.contentErrors_eq hgain.ne_invalidEnum

end

/-- The step over an enum decides alone what the model says about it. -/
lemma enum?_of_split {a : Assembly} {before after : List Declared} {new : Declared}
    (hsplit : (Declared.ofAssembly a).1 = before ++ new :: after) :
    let d := before.foldl Draft.bindEnum (Declared.ofAssembly a).2
    (d.model.enum? new.path = none ∧ contentErrors new.path d.model.errors = []) ∧
    (BindingModel.ofAssembly a).enum? new.path = (d.bindEnum new).model.enum? new.path ∧
    contentErrors new.path (BindingModel.ofAssembly a).errors =
      contentErrors new.path (d.bindEnum new).model.errors := by
  intro d
  -- a path is declared once
  have hnodup := nodup_path_ofAssembly a
  rw [hsplit, List.map_append, List.map_cons, List.nodup_middle, List.nodup_cons,
    List.mem_append, not_or] at hnodup
  have hbefore : ∀ other ∈ before, other.path ≠ new.path := fun other hmem heq =>
    hnodup.1.1 (heq ▸ List.mem_map_of_mem hmem)
  have hafter : ∀ other ∈ after, other.path ≠ new.path := fun other hmem heq =>
    hnodup.1.2 (heq ▸ List.mem_map_of_mem hmem)
  obtain ⟨hnone, hclean⟩ := Draft.foldl_bindEnum_other hbefore (Declared.ofAssembly a).2
  obtain ⟨henum, herrors⟩ := Draft.foldl_bindEnum_other hafter (d.bindEnum new)
  refine ⟨⟨hnone.trans ?_, hclean.trans (contentErrors_eq_nil fun e he fault => ?_)⟩, ?_, ?_⟩
  · rw [BindingModel.enum?, (model_ofAssembly a).2.1]
    rfl
  · obtain ⟨_, hfault⟩ := errors_ofAssembly a e he
    rw [hfault]
    intro h
    cases h
  · rw [← henum, BindingModel.enum?, BindingModel.enum?, enums_ofAssembly, hsplit,
      List.foldl_append, List.foldl_cons]
  · rw [← herrors, contentErrors_ofAssembly, hsplit, List.foldl_append, List.foldl_cons]

lemma NameRefused.isFatal_eq {fault : BindingFault} (h : NameRefused fault) :
    fault.isFatal = false := by
  cases h <;> rfl

lemma isFatal_of_itemType {body : EnumBody} {fault : EnumFault} (h : itemType body = .error fault)
    (path : TypePath) : (BindingFault.invalidEnum path fault).isFatal = false := by
  rw [itemType] at h
  split at h
  · cases h
  · split at h
    · cases h
    · rw [← Except.error.inj h]
      rfl
  · rw [← Except.error.inj h]
    rfl

/-- The step over a declaration that is not a public enum with an integral type and a granted name
adds no enum, and reports nothing fatal. -/
lemma Draft.claimed_or_of_bindEnum (d : Draft) (new : Declared) :
    (∃ body underlying, new.decl.visibility = .publicAccess ∧ new.decl.body = .enumBody body ∧
      itemType body = .ok underlying ∧
      (d.claim new.path.symbol (.enumType new.path) new.decl.span).2 = true) ∨
    ((d.bindEnum new).model.enums = d.model.enums ∧
      d.Reports (·.isFatal = false) (d.bindEnum new)) := by
  obtain ⟨path, decl⟩ := new
  rw [bindEnum]
  dsimp only
  split
  · rename_i body hbody
    split
    · exact .inr ⟨rfl, .refl _ d⟩
    · rename_i hpublic
      split
      · rename_i fault htype
        exact .inr ⟨rfl, .report (isFatal_of_itemType htype path) decl.span⟩
      · rename_i underlying htype
        split
        · rename_i hclaimed
          exact .inl ⟨body, underlying, not_ne_iff.mp hpublic, hbody, htype, hclaimed⟩
        · exact .inr ⟨(d.registers_claim path.symbol (.enumType path) decl.span).enums,
            (d.reports_claim _ _ _).mono fun _ => NameRefused.isFatal_eq⟩
  · exact .inr ⟨rfl, .refl _ d⟩

/-- The values of all items fit the type of their enum. -/
def BoundEnum.HoldsItems (e : BoundEnum) : Prop := ∀ i ∈ e.items, e.underlying.holds i.value = true

/-- The step over a declaration adds only an enum whose items fit. -/
lemma Draft.holdsItems_bindEnum {d : Draft} (hd : ∀ e ∈ d.model.enums, e.HoldsItems)
    (new : Declared) : ∀ e ∈ (d.bindEnum new).model.enums, e.HoldsItems := by
  by_cases hsame : (d.bindEnum new).model.enums = d.model.enums
  · rw [hsame]
    exact hd
  · obtain ⟨body, underlying, hpublic, hbody, htype, hclaimed⟩ :=
      (d.claimed_or_of_bindEnum new).resolve_right fun h => hsame h.1
    obtain ⟨items, refused, hkept, hmodel⟩ := d.bindEnum_claimed hpublic hbody htype hclaimed
    have hfit := (stops_itemValues (isIntegral_of_itemType htype) body.items).1
    have hnew : (new.boundEnum underlying items).HoldsItems := by
      intro i hi
      obtain ⟨x, hx, -, hvalue⟩ := hkept.exists_of_mem i hi
      exact hvalue ▸ hfit.holds x hx
    rw [hmodel]
    cases (itemValues underlying [] 0 body.items).2 with
    | none => exact List.forall_mem_append.mpr ⟨hd, List.forall_mem_singleton.mpr hnew⟩
    | some fault => exact hd

lemma holdsItems_of_mem_enums {a : Assembly} {e : BoundEnum}
    (he : e ∈ (BindingModel.ofAssembly a).enums) : e.HoldsItems := by
  rw [enums_ofAssembly] at he
  refine List.foldlRecOn (motive := fun d : Draft => ∀ e ∈ d.model.enums, e.HoldsItems) _ _ ?_
    (fun _ hd new _ => Draft.holdsItems_bindEnum hd new) e he
  rw [(model_ofAssembly a).2.1]
  exact fun e he => absurd he List.not_mem_nil

/-- Where the items of an enum of the model come from: all its items have got values. -/
lemma items_of_enum? {a : Assembly} {new : Declared} (hnew : new ∈ (Declared.ofAssembly a).1)
    {e : BoundEnum} (he : (BindingModel.ofAssembly a).enum? new.path = some e) :
    ∃ body underlying d refused, new.decl.body = .enumBody body ∧ itemType body = .ok underlying ∧
      (itemValues underlying [] 0 body.items).2 = none ∧
      Kept d new.path (itemValues underlying [] 0 body.items).1 e.items refused := by
  obtain ⟨before, after, hsplit⟩ := List.append_of_mem hnew
  obtain ⟨⟨hnone, -⟩, hfinal, -⟩ := enum?_of_split hsplit
  rw [hfinal] at he
  generalize before.foldl Draft.bindEnum (Declared.ofAssembly a).2 = d at hnone he
  obtain ⟨body, underlying, hpublic, hbody, htype, hclaimed⟩ :=
    (d.claimed_or_of_bindEnum new).resolve_right fun hsame => by
      rw [BindingModel.enum?, hsame.1] at he
      cases hnone.symm.trans he
  obtain ⟨items, refused, hkept, hmodel⟩ := d.bindEnum_claimed hpublic hbody htype hclaimed
  refine ⟨body, underlying, d.bindEnum new, refused, hbody, htype, ?_⟩
  rw [hmodel] at he
  generalize itemValues underlying [] 0 body.items = run at hkept he ⊢
  obtain ⟨xs, fault?⟩ := run
  cases fault? with
  | none =>
    have hfound := enum?_addEnum (new.boundEnum underlying items) refused hnone
    obtain rfl := Option.some.inj (hfound.symm.trans he)
    exact ⟨rfl, hkept⟩
  | some fault => cases hnone.symm.trans he

/-- A public enum whose type is integral and whose name is granted is in the model exactly if there
are values for all its items that fit the type, and no two items have one name.  Then it has the
items whose names are granted, with these values, and nothing is reported about its content;
otherwise the first item that is at fault is reported, once, and no enum is added. -/
theorem isSome_enum?_iff_valued (a : Assembly) {before after : List Declared} {new : Declared}
    {body : EnumBody} {underlying : Primitive}
    (hsplit : (Declared.ofAssembly a).1 = before ++ new :: after)
    (hpublic : new.decl.visibility = .publicAccess) (hbody : new.decl.body = .enumBody body)
    (htype : body.underlying = none ∧ underlying = .int32 ∨
      body.underlying = some (.primitive underlying) ∧ underlying.isIntegral = true)
    (hclaimed : ((before.foldl Draft.bindEnum (Declared.ofAssembly a).2).claim new.path.symbol
      (.enumType new.path) new.decl.span).2 = true) :
    let d := before.foldl Draft.bindEnum (Declared.ofAssembly a).2
    let m := BindingModel.ofAssembly a
    ((m.enum? new.path).isSome ↔ (body.items.map (·.name)).Nodup ∧
      ∃ xs : List (EnumItem × Int), xs.map (·.1) = body.items ∧ Valued xs ∧
        ∀ x ∈ xs, underlying.holds x.2 = true) ∧
    (∀ e, m.enum? new.path = some e → ∃ xs items refused, xs.map (·.1) = body.items ∧ Valued xs ∧
      (∀ x ∈ xs, underlying.holds x.2 = true) ∧ Kept (d.bindEnum new) new.path xs items refused ∧
      e = new.boundEnum underlying items ∧
      (d.bindEnum new).model =
        { d.model with enums := d.model.enums ++ [e], errors := d.model.errors ++ refused } ∧
      contentErrors new.path m.errors = []) ∧
    (m.enum? new.path = none → ∃ xs items refused fault span,
      Stops underlying body.items xs (some (fault, span)) ∧
      Kept (d.bindEnum new) new.path xs items refused ∧
      (d.bindEnum new).model = { d.model with
        errors := d.model.errors ++ refused ++ [⟨.invalidEnum new.path fault, span⟩] } ∧
      contentErrors new.path m.errors = [⟨.invalidEnum new.path fault, span⟩]) := by
  intro d m
  have hitem : itemType body = .ok underlying := by
    rw [itemType]
    rcases htype with ⟨htype, rfl⟩ | ⟨htype, hintegral⟩
    · rw [htype]
    · rw [htype]
      exact if_pos hintegral
  have hintegral := Draft.isIntegral_of_itemType hitem
  obtain ⟨⟨hnone, hclean⟩, hfinal, hreports⟩ := enum?_of_split hsplit
  obtain ⟨items, refused, hkept, hmodel⟩ := d.bindEnum_claimed hpublic hbody hitem hclaimed
  obtain ⟨hfit, hstops⟩ := stops_itemValues hintegral body.items
  have hclean' : contentErrors new.path (d.model.errors ++ refused) = [] := by
    rw [contentErrors_append, hclean, List.nil_append]
    exact contentErrors_eq_nil fun e he => hkept.ne_invalidEnum e he new.path
  rw [← itemValues_complete_iff hintegral body.items, hfinal, hreports, hmodel]
  generalize itemValues underlying [] 0 body.items = run at hkept hmodel hfit hstops ⊢
  obtain ⟨xs, fault?⟩ := run
  cases fault? with
  | none =>
    have hfound : (addEnum d.model (new.boundEnum underlying items) refused none).enum? new.path =
        some (new.boundEnum underlying items) := enum?_addEnum _ refused hnone
    dsimp only
    rw [hfound]
    cases hstops with
    | complete hitems =>
      refine ⟨⟨fun _ => rfl, fun _ => rfl⟩, ?_, (by intro hmissing; cases hmissing)⟩
      intro e he
      obtain rfl := Option.some.inj he
      exact ⟨xs, items, refused, hitems, hfit.valued, hfit.holds, hkept, rfl, rfl, hclean'⟩
  | some fault =>
    obtain ⟨fault, span⟩ := fault
    have hmissing : (addEnum d.model (new.boundEnum underlying items) refused
        (some (fault, span))).enum? new.path = none := hnone
    dsimp only
    rw [hmissing]
    refine ⟨iff_of_false Bool.false_ne_true (by intro hcomplete; cases hcomplete),
      (by intro e he; cases he), fun _ => ?_⟩
    refine ⟨xs, items, refused, fault, span, hstops, hkept, rfl, ?_⟩
    rw [addEnum, contentErrors_append, hclean', List.nil_append]
    exact contentErrors_singleton fault span

/-- The symbol of an item is a word of the language; the item behind it counts on. -/
theorem isSome_enum?_of_refused_item :
    let items : List EnumItem :=
      [⟨"await", some (.literal 254 .nowhere), .nowhere⟩, ⟨"last", none, .nowhere⟩]
    let decl : TypeDecl := ⟨"co", .enumBody ⟨some (.primitive .uint8), items⟩, .publicAccess, false,
      [], .nowhere⟩
    let m := BindingModel.ofAssembly ⟨[.declared decl]⟩
    ∃ e xs refused, m.enum? ⟨[], "co"⟩ = some e ∧ xs.map (·.1) = items ∧ Valued xs ∧
      Kept (Draft.empty.bindEnum ⟨⟨[], "co"⟩, decl⟩) ⟨[], "co"⟩ xs [⟨"last", "co_last", 255⟩]
        refused ∧
      contentErrors ⟨[], "co"⟩ m.errors = [] := by
  intro items decl m
  obtain ⟨-, hbound, -⟩ := @isSome_enum?_iff_valued ⟨[.declared decl]⟩ [] [] ⟨⟨[], "co"⟩, decl⟩
    ⟨some (.primitive .uint8), items⟩ .uint8 rfl rfl rfl (.inr ⟨rfl, rfl⟩) (by decide +kernel)
  have hitems : (m.enum? ⟨[], "co"⟩).map (·.items) = some [⟨"last", "co_last", 255⟩] := by
    decide +kernel
  obtain ⟨e, he, hlast⟩ := Option.map_eq_some_iff.mp hitems
  obtain ⟨xs, _, refused, hxs, hvalued, -, hkept, rfl, -, herrors⟩ := hbound e he
  obtain rfl := hlast
  exact ⟨_, xs, refused, he, hxs, hvalued, hkept, herrors⟩

end Interop.Model
