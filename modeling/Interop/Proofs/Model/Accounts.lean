/-
# Nothing is lost

Every type declaration of an assembly is accounted for, in source order: it repeats a name and is
reported for that, or it is not public and leaves no trace, or it is in the model, or there are
errors about it (`Share.Settles`, `Accounts`).  Every exported member of a bound class has a
function or an error, in the place where its turn is.  The accounts balance: put together, they are
the lists of the model, errors included.

Main result: `accounts_balance`.
-/
import Interop.Proofs.Model.Gains

namespace Interop.Model

open Source

/-- The share of a declaration, the first of its name, settles it: all that binding made of it is
what its kind allows. -/
inductive Share.Settles (decls : List Declared) (m : BindingModel) (new : Declared) : Share → Prop
  | hidden (h : new.decl.visibility ≠ .publicAccess) (hclass : m.class? new.path = none)
    (henum : m.enum? new.path = none) (hfunctions : ∀ f ∈ m.functions, f.owner ≠ new.path) :
    Settles decls m new ⟨{}, {}, {}, []⟩
  | valueType {body : ClassBody} (hpublic : new.decl.visibility = .publicAccess)
    (hbody : new.decl.body = .structBody body) :
    Settles decls m new ⟨{}, { errors := [⟨.unsupportedType new.path.dotted new.path.dotted
      .structHandle, new.decl.span⟩] }, {}, []⟩
  | boundClass {body : ClassBody} {inBases : Gain} {members : List Outcome}
    (hpublic : new.decl.visibility = .publicAccess) (hbody : new.decl.body = .classBody body)
    (hclass : (m.class? new.path).isSome)
    (hbases : BaseGain (m.classes.map (·.path)) new inBases)
    (hmembers : List.Forall₂ (MemberOutcome decls m new.path) new.candidates members) :
    Settles decls m new ⟨{}, { classes := [new.path] }, inBases, members⟩
  | classLeftOut {body : ClassBody} {fault : BindingFault}
    (hpublic : new.decl.visibility = .publicAccess) (hbody : new.decl.body = .classBody body)
    (hclass : m.class? new.path = none)
    (h : ClaimRefused new.path.symbol (.classType new.path) fault) :
    Settles decls m new ⟨{}, { errors := [⟨fault, new.decl.span⟩] }, {}, []⟩
  | boundEnum {body : EnumBody} {e : BoundEnum} {errors : List BindingError}
    (hpublic : new.decl.visibility = .publicAccess) (hbody : new.decl.body = .enumBody body)
    (henum : m.enum? new.path = some e) (h : ∀ x ∈ errors, ItemRefused new.path x.fault) :
    Settles decls m new ⟨{ enums := [e], errors }, {}, {}, []⟩
  | enumLeftOut {body : EnumBody} {errors : List BindingError}
    (hpublic : new.decl.visibility = .publicAccess) (hbody : new.decl.body = .enumBody body)
    (henum : m.enum? new.path = none) (hne : errors ≠ [])
    (h : ∀ x ∈ errors, EnumLeftOut new.path x.fault) :
    Settles decls m new ⟨{ errors }, {}, {}, []⟩

/-- What became of a declaration: the errors about its name, and what the passes made of it. -/
structure Account where
  declared : Declared
  repeats : List BindingError
  share : Share

/-- The accounts of some declarations, in source order; `before` are the names of those before. -/
inductive Accounts (decls : List Declared) (m : BindingModel) :
    List TypePath → List Account → Prop
  | nil (before : List TypePath) : Accounts decls m before []
  | repeated {before : List TypePath} {new : Declared} {rest : List Account}
    (h : new.path ∈ before) (hrest : Accounts decls m (new.path :: before) rest) :
    Accounts decls m before
      (⟨new, [⟨.duplicateType new.path, new.decl.span⟩], ⟨{}, {}, {}, []⟩⟩ :: rest)
  | first {before : List TypePath} {new : Declared} {share : Share} {rest : List Account}
    (h : new.path ∉ before) (hshare : share.Settles decls m new)
    (hrest : Accounts decls m (new.path :: before) rest) :
    Accounts decls m before (⟨new, [], share⟩ :: rest)

/-- Accounts of all type declarations of an assembly that put together are its model. -/
structure Balance (a : Assembly) (accounts : List Account) : Prop where
  /-- There is one account for each declaration, in source order. -/
  declared : accounts.map (·.declared) = Declared.ofItems [] a.items
  settled : Accounts (Declared.ofAssembly a).1 (BindingModel.ofAssembly a) [] accounts
  classes : (BindingModel.ofAssembly a).classes.map (·.path) =
    accounts.flatMap fun x => x.share.inClasses.classes
  enums : (BindingModel.ofAssembly a).enums = accounts.flatMap fun x => x.share.inEnums.enums
  functions : (BindingModel.ofAssembly a).functions =
    accounts.flatMap fun x => x.share.members.filterMap Outcome.function?
  /-- No function stands in the model twice. -/
  nodup_functions : (BindingModel.ofAssembly a).functions.Nodup
  errors : (BindingModel.ofAssembly a).errors = accounts.flatMap (·.repeats) ++
    ((accounts.flatMap fun x => x.share.inEnums.errors) ++
    (accounts.flatMap fun x => x.share.inClasses.errors) ++
    (accounts.flatMap fun x => x.share.inBases.errors) ++
    accounts.flatMap fun x => x.share.members.filterMap Outcome.error?)

/-- An enum of a model is the only one with its path. -/
lemma enum?_path {a : Assembly} {e : BoundEnum} (he : e ∈ (BindingModel.ofAssembly a).enums) :
    (BindingModel.ofAssembly a).enum? e.path = some e := by
  obtain ⟨e', he'⟩ := Option.isSome_iff_exists.mp
    (BindingModel.isSome_enum?_iff.mpr (List.mem_map_of_mem he))
  obtain ⟨hmem, hpath⟩ := BindingModel.mem_of_enum? he'
  rw [he', List.inj_on_of_nodup_map (nodup_enums a) hmem he hpath]

section

variable {a : Assembly} {share : Declared → Share} {new : Declared}

/-- The share of each declaration settles it. -/
lemma Contributions.settles (h : Contributions a share) (hnew : new ∈ (Declared.ofAssembly a).1) :
    (share new).Settles (Declared.ofAssembly a).1 (BindingModel.ofAssembly a) new := by
  have henums := h.inEnums new hnew
  have hclasses := h.inClasses new hnew
  have hbases := h.inBases new hnew
  have hmembers := (h.members new hnew).bound
  have hclass? := h.isSome_class?_iff hnew
  have henum? := h.isSome_enum?_iff hnew
  have hnone := h.no_members hnew
  have henumMem : ∀ e ∈ (share new).inEnums.enums, e ∈ (BindingModel.ofAssembly a).enums := by
    rw [h.enums]
    exact fun e he => List.mem_flatMap.mpr ⟨new, hnew, he⟩
  generalize share new = s at henums hclasses hbases hmembers hclass? henum? hnone henumMem ⊢
  obtain ⟨inEnums, inClasses, inBases, members⟩ := s
  dsimp only at henums hclasses hbases hmembers hclass? henum? hnone henumMem
  by_cases hpublic : new.decl.visibility = .publicAccess
  · cases hclasses with
    | hidden hnot => exact absurd hpublic hnot
    | enum hbody =>
      obtain ⟨_, rfl, rfl⟩ := hnone (by simp)
      cases henums with
      | hidden hnot => exact absurd hpublic hnot
      | other hnot => exact absurd hbody (hnot _)
      | bound _ hbody hpath herrors =>
        refine .boundEnum hpublic hbody ?_ herrors
        rw [← hpath]
        exact enum?_path (henumMem _ (List.mem_singleton_self _))
      | leftOut _ hbody hne herrors =>
        exact .enumLeftOut hpublic hbody
          (Option.not_isSome_iff_eq_none.mp fun hsome => by simpa using henum?.mp hsome) hne herrors
    | valueType _ hbody =>
      obtain ⟨_, rfl, rfl⟩ := hnone (by simp)
      cases henums with
      | hidden | other => exact .valueType hpublic hbody
      | bound _ hother | leftOut _ hother => simp [hbody] at hother
    | bound _ hbody =>
      have hsome := hclass?.mpr (List.mem_singleton_self _)
      cases henums with
      | hidden | other => exact .boundClass hpublic hbody hsome hbases (hmembers hsome)
      | bound _ hother | leftOut _ hother => simp [hbody] at hother
    | leftOut _ hbody hfault =>
      obtain ⟨hclass, rfl, rfl⟩ := hnone (by simp)
      cases henums with
      | hidden | other => exact .classLeftOut hpublic hbody hclass hfault
      | bound _ hother | leftOut _ hother => simp [hbody] at hother
  · obtain rfl : inClasses = {} := by
      cases hclasses with
      | hidden | enum => rfl
      | valueType hnot | bound hnot | leftOut hnot => exact absurd hnot hpublic
    obtain rfl : inEnums = {} := by
      cases henums with
      | hidden | other => rfl
      | bound hnot | leftOut hnot => exact absurd hnot hpublic
    obtain ⟨hclass, rfl, rfl⟩ := hnone (by simp)
    refine .hidden hpublic hclass
      (Option.not_isSome_iff_eq_none.mp fun hsome => by simpa using henum?.mp hsome) ?_
    -- the owner of a function is a class of the model
    intro f hf howner
    obtain ⟨c, hc, _⟩ := class?_owner hf
    rw [howner, hclass] at hc
    cases hc

end

/-- Declarations are told apart by their paths. -/
lemma Declared.isSome_find?_iff {kept : List Declared} {path : TypePath} :
    (find? kept path.segments).isSome ↔ path ∈ kept.map (·.path) := by
  simp [find?, TypePath.segments_inj]

/-- Keeps a declaration, or reports it if its name was declared before. -/
def Declared.keep (s : List Declared × Draft) (new : Declared) : List Declared × Draft :=
  if (find? s.1 new.path.segments).isSome then
    (s.1, s.2.report (.duplicateType new.path) new.decl.span)
  else (s.1 ++ [new], s.2)

/-- Collecting declarations keeps the first of each name, and reports the others.  With the shares
of those that are kept, this gives the accounts of all. -/
lemma exists_accounts (decls : List Declared) (m : BindingModel) (share : Declared → Share)
    (all : List Declared) :
    ∀ (kept : List Declared) (d : Draft) (before : List TypePath),
      (∀ p, p ∈ before ↔ p ∈ kept.map (·.path)) →
      ∃ firsts accounts, (all.foldl Declared.keep (kept, d)).1 = kept ++ firsts ∧
        (all.foldl Declared.keep (kept, d)).2.model.errors =
          d.model.errors ++ accounts.flatMap (·.repeats) ∧
        accounts.map (·.declared) = all ∧
        (∀ {α : Type} (view : Share → List α), view ⟨{}, {}, {}, []⟩ = [] →
          (accounts.flatMap fun x => view x.share) = firsts.flatMap fun new => view (share new)) ∧
        ((∀ new ∈ firsts, (share new).Settles decls m new) → Accounts decls m before accounts) := by
  induction all with
  | nil =>
    intro kept d before _
    exact ⟨[], [], (List.append_nil _).symm, (List.append_nil _).symm, rfl, fun _ _ => rfl,
      fun _ => .nil before⟩
  | cons new all ih =>
    intro kept d before hbefore
    rw [List.foldl_cons, Declared.keep]
    by_cases hknown : new.path ∈ before
    · -- a repetition is not kept
      have hkept : new.path ∈ kept.map (·.path) := (hbefore _).mp hknown
      rw [if_pos (Declared.isSome_find?_iff.mpr hkept)]
      obtain ⟨firsts, accounts, hfirsts, herrors, hall, hview, haccounts⟩ :=
        ih kept (d.report (.duplicateType new.path) new.decl.span) (new.path :: before) (by
          intro p
          rw [List.mem_cons, hbefore]
          exact ⟨fun h => h.elim (fun h => h ▸ hkept) id, Or.inr⟩)
      refine ⟨firsts,
        ⟨new, [⟨.duplicateType new.path, new.decl.span⟩], ⟨{}, {}, {}, []⟩⟩ :: accounts, hfirsts,
        ?_, congrArg (new :: ·) hall, ?_, fun h => .repeated hknown (haccounts h)⟩
      · rw [herrors, List.flatMap_cons, ← List.append_assoc]
        rfl
      · intro α view hempty
        rw [List.flatMap_cons, hempty, List.nil_append, hview view hempty]
    · rw [if_neg fun h => hknown ((hbefore _).mpr (Declared.isSome_find?_iff.mp h))]
      obtain ⟨firsts, accounts, hfirsts, herrors, hall, hview, haccounts⟩ :=
        ih (kept ++ [new]) d (new.path :: before) (by
          intro p
          rw [List.mem_cons, hbefore, List.map_append, List.mem_append, List.map_singleton,
            List.mem_singleton, or_comm])
      refine ⟨new :: firsts, ⟨new, [], share new⟩ :: accounts, ?_, herrors,
        congrArg (new :: ·) hall, ?_, ?_⟩
      · rw [hfirsts, List.append_assoc]
        rfl
      · intro α view hempty
        rw [List.flatMap_cons, List.flatMap_cons, hview view hempty]
      · intro h
        exact .first hknown (h new List.mem_cons_self)
          (haccounts fun other hother => h other (List.mem_cons_of_mem _ hother))

/-- Nothing is lost: the type declarations of an assembly have accounts that balance with its
model. -/
theorem accounts_balance (a : Assembly) : ∃ accounts, Balance a accounts := by
  obtain ⟨share, hshare⟩ := exists_contributions a
  obtain ⟨firsts, accounts, hfirsts, herrors, hall, hview, haccounts⟩ :=
    exists_accounts (Declared.ofAssembly a).1 (BindingModel.ofAssembly a) share
      (Declared.ofItems [] a.items) [] .empty [] (fun _ => Iff.rfl)
  have hdecls : (Declared.ofAssembly a).1 = firsts := hfirsts
  have herrors' : (Declared.ofAssembly a).2.model.errors = accounts.flatMap (·.repeats) := herrors
  refine ⟨accounts, hall, haccounts fun new hnew => hshare.settles (hdecls ▸ hnew), ?_, ?_, ?_,
    List.Nodup.of_map _ (nodup_symbols a), ?_⟩
  · rw [hshare.classes, hdecls, hview (·.inClasses.classes) rfl]
  · rw [hshare.enums, hdecls, hview (·.inEnums.enums) rfl]
  · rw [hshare.functions, hdecls, hview (fun s => s.members.filterMap Outcome.function?) rfl]
  · rw [hshare.errors, herrors', hdecls, hview (·.inEnums.errors) rfl,
      hview (·.inClasses.errors) rfl, hview (·.inBases.errors) rfl,
      hview (fun s => s.members.filterMap Outcome.error?) rfl]

end Interop.Model
