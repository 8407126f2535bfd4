/-
# Where binding ends

No error can be reported about the negation of the least number of 128 bits: the program ends with
it.  It does so if such an expression is reached, which stands in a public enum whose type is
integral and whose name is granted, behind items that have got values.

Main result: `exists_bind_error_iff`.
-/
import Interop.Proofs.Model.EnumItems

namespace Interop.Model

open Source

/-- Binding ends at an enum: an item behind others that have got values negates the least number. -/
structure Ends (d : Draft) (new : Declared) : Prop where
  isPublic : new.decl.visibility = .publicAccess
  granted : (d.claim new.path.symbol (.enumType new.path) new.decl.span).2 = true
  item : ∃ body underlying xs item rest, new.decl.body = .enumBody body ∧
    itemType body = .ok underlying ∧ body.items = xs.map (·.1) ++ item :: rest ∧
    Fitting underlying xs ∧ valueAfter xs item = .error .negationOverflow

/-- The program ends with a fault of binding that is fatal. -/
lemma exists_bind_error_iff_mem {a : Assembly} : (∃ e, BindingModel.bind a = .error e) ↔
    ∃ e ∈ (BindingModel.ofAssembly a).errors, e.fault.isFatal = true := by
  rw [BindingModel.bind]
  cases hfind : (BindingModel.ofAssembly a).errors.find? (·.fault.isFatal) with
  | none =>
    constructor
    · rintro ⟨e, hended⟩
      cases hended
    · rintro ⟨e, he, hfatal⟩
      exact absurd hfatal (List.find?_eq_none.mp hfind e he)
  | some e =>
    have hfatal : e.fault.isFatal = true := by simpa using List.find?_some hfind
    exact ⟨fun _ => ⟨e, List.mem_of_find?_eq_some hfind, hfatal⟩, fun _ => ⟨e, rfl⟩⟩

/-! ### The items -/

section

variable {underlying : Primitive} {item : EnumItem} {rest : List EnumItem}

/-- The run over the items stops at one that has no value, if the items before it fit. -/
lemma itemValues_stuck (hintegral : underlying.isIntegral = true) {fault : ExprFault}
    (xs : List (EnumItem × Int)) : ∀ earlier : List (EnumItem × Int),
      Fitting underlying (earlier ++ xs) → valueAfter (earlier ++ xs) item = .error fault →
      (itemValues underlying (environment earlier).reverse (nextValue earlier)
        (xs.map (·.1) ++ item :: rest)).2 = some (.item item.name fault, item.span) := by
  induction xs with
  | nil =>
    intro earlier hfit hvalue
    rw [List.append_nil] at hfit hvalue
    rw [List.map_nil, List.nil_append, itemValues_cons hintegral hfit.nodup, hvalue]
  | cons x xs ih =>
    intro earlier hfit hvalue
    have hnames := hfit.nodup
    rw [List.map_append, List.map_cons, List.nodup_append] at hnames
    have hfresh : x.1.name ∉ earlier.map (·.1.name) := fun hmem =>
      hnames.2.2 _ hmem _ List.mem_cons_self rfl
    have hholds : underlying.holds x.2 = true :=
      hfit.holds x (List.mem_append_right _ List.mem_cons_self)
    have hassoc : earlier ++ x :: xs = (earlier ++ [(x.1, x.2)]) ++ xs := by
      rw [List.append_assoc, List.singleton_append]
    rw [List.map_cons, List.cons_append, itemValues_cons hintegral hnames.1,
      hfit.valued earlier x xs rfl]
    rw [hassoc] at hfit hvalue
    simp only [hholds, hfresh, not_true_eq_false, if_false]
    exact ih _ hfit hvalue

/-- Only an item whose expression negates the least number is at fault fatally. -/
lemma ItemFault.valueAfter_eq {xs : List (EnumItem × Int)} {fault : EnumFault} {path : TypePath}
    (h : ItemFault underlying xs item fault)
    (hfatal : (BindingFault.invalidEnum path fault).isFatal = true) :
    valueAfter xs item = .error .negationOverflow := by
  cases h with
  | @noValue fault h =>
    cases fault with
    | negationOverflow => exact h
    | unknownItem | shiftAmount | shiftOverflow => cases hfatal
  | outOfRange | repeated => cases hfatal

end

/-! ### One declaration -/

/-- The step over a declaration reports something fatal exactly if binding ends there. -/
lemma Draft.exists_fatal_iff {d : Draft} {new : Declared}
    (hclean : contentErrors new.path d.model.errors = []) :
    (∃ e ∈ contentErrors new.path (d.bindEnum new).model.errors, e.fault.isFatal = true) ↔
      Ends d new := by
  constructor
  · rintro ⟨e, he, hfatal⟩
    obtain ⟨herrors, hcontent⟩ := List.mem_filter.mp he
    have hnew : e ∉ d.model.errors := fun hold =>
      List.ne_nil_of_mem (List.mem_filter.mpr ⟨hold, hcontent⟩) hclean
    obtain ⟨body, underlying, hpublic, hbody, htype, hclaimed⟩ :=
      (d.claimed_or_of_bindEnum new).resolve_right fun h =>
        Bool.false_ne_true (((h.2 e herrors).resolve_left hnew).symm.trans hfatal)
    obtain ⟨items, refused, hkept, hmodel⟩ := d.bindEnum_claimed hpublic hbody htype hclaimed
    obtain ⟨hfit, hstops⟩ := stops_itemValues (isIntegral_of_itemType htype) body.items
    have hclean' : contentErrors new.path (d.model.errors ++ refused) = [] := by
      rw [contentErrors_append, hclean, List.nil_append]
      exact contentErrors_eq_nil fun e he => hkept.ne_invalidEnum e he new.path
    rw [hmodel] at he
    generalize itemValues underlying [] 0 body.items = run at he hfit hstops
    obtain ⟨xs, fault?⟩ := run
    cases hstops with
    | complete hitems =>
      rw [addEnum, hclean'] at he
      cases he
    | @stuck item rest fault hitems hfault =>
      -- the error about the item is the only one about the content of the enum
      rw [addEnum, contentErrors_append, hclean', List.nil_append] at he
      obtain rfl := List.mem_singleton.mp (List.mem_filter.mp he).1
      exact ⟨hpublic, hclaimed, body, underlying, xs, item, rest, hbody, htype, hitems, hfit,
        hfault.valueAfter_eq hfatal⟩
  · rintro ⟨hpublic, hclaimed, body, underlying, xs, item, rest, hbody, htype, hitems, hfit, hvalue⟩
    obtain ⟨items, refused, hkept, hmodel⟩ := d.bindEnum_claimed hpublic hbody htype hclaimed
    have hstuck : (itemValues underlying [] 0 body.items).2 =
        some (.item item.name .negationOverflow, item.span) := by
      rw [hitems]
      exact itemValues_stuck (isIntegral_of_itemType htype) xs [] hfit hvalue
    rw [hmodel, hstuck, addEnum, contentErrors_append]
    refine ⟨⟨.invalidEnum new.path (.item item.name .negationOverflow), item.span⟩,
      List.mem_append_right _ ?_, rfl⟩
    exact List.mem_filter.mpr ⟨List.mem_singleton_self _, decide_eq_true rfl⟩

/-- Binding ends exactly if it does so at one of the declared enums, where the names that this needs
are those that the declarations before it have left. -/
theorem exists_bind_error_iff (a : Assembly) : (∃ e, BindingModel.bind a = .error e) ↔
    ∃ before new after, (Declared.ofAssembly a).1 = before ++ new :: after ∧
      Ends (before.foldl Draft.bindEnum (Declared.ofAssembly a).2) new := by
  rw [exists_bind_error_iff_mem]
  constructor
  · rintro ⟨⟨fault, span⟩, he, hfatal⟩
    cases fault with
    | invalidEnum path fault =>
      obtain ⟨⟨new, hnew, rfl⟩, -⟩ := exists_of_invalidEnum he
      obtain ⟨before, after, hsplit⟩ := List.append_of_mem hnew
      obtain ⟨⟨-, hclean⟩, -, hreports⟩ := enum?_of_split hsplit
      refine ⟨before, new, after, hsplit, (Draft.exists_fatal_iff hclean).mp ⟨_, ?_, hfatal⟩⟩
      rw [← hreports]
      exact List.mem_filter.mpr ⟨he, decide_eq_true rfl⟩
    | nameCollision | unsupportedType | unknownType | duplicateType | invalidBase
    | staticClassMember | invalidIdentifier => cases hfatal
  · rintro ⟨before, new, after, hsplit, hends⟩
    obtain ⟨⟨-, hclean⟩, -, hreports⟩ := enum?_of_split hsplit
    obtain ⟨e, he, hfatal⟩ := (Draft.exists_fatal_iff hclean).mpr hends
    rw [← hreports] at he
    exact ⟨e, (List.mem_filter.mp he).1, hfatal⟩

end Interop.Model
