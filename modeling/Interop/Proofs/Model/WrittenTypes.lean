/-
# Names in the types of parameters

Where a type is written, a word of a built-in type stands for that type.  So what is read as a name
of a declared type is never such a word, not even when a class has it for its name: nothing can be
passed as a class `byte` outside of all namespaces.  This holds of the types that the members of a
text take, and hence of the types of the parameters in its model.

Main result: `namesDeclared_of_ofText`.
-/
import Interop.Proofs.Model.PassedTypes
import Interop.Proofs.Model.Places
import Interop.Proofs.Source.Soundness

namespace Interop

open Model

namespace Source

/-! ### Types in a text -/

/-- What a type names, be it as an element of arrays, has a name of its own. -/
def TypeExpr.NamesDeclared : TypeExpr → Prop
  | .named name => name.segments ≠ [] ∧ name.IsDeclared
  | .array element => element.NamesDeclared
  | _ => True

/-- The types of what a member takes. -/
def MemberKind.inputs : MemberKind → List TypeExpr
  | .constructor params => params.map (·.type)
  | .method params _ => params.map (·.type)
  | .property type _ _ => [type]

/-- The members of a class or a struct. -/
def TypeBody.members : TypeBody → List Member
  | .classBody body => body.members
  | .structBody body => body.members
  | .enumBody _ => []

/-- The members of a declaration name declared types. -/
def TypeDecl.NamesDeclared (d : TypeDecl) : Prop :=
  ∀ m ∈ d.body.members, ∀ t ∈ m.kind.inputs, t.NamesDeclared

section Forms

variable {α : Type} {p : Phrase α} {P : α → Prop}

lemma Many.forall {ts : List Token} {as : List α} (h : Many p ts as)
    (hP : ∀ ts a, p ts a → P a) : ∀ a ∈ as, P a := by
  induction h with
  | nil => exact fun _ h => absurd h List.not_mem_nil
  | cons hhead _ ih => exact List.forall_mem_cons.mpr ⟨hP _ _ hhead, ih⟩

lemma Separated.forall {separator : Token} {ts : List Token} {as : List α}
    (h : Separated separator p ts as) (hP : ∀ ts a, p ts a → P a) : ∀ a ∈ as, P a := by
  induction h with
  | one honly => exact List.forall_mem_singleton.mpr (hP _ _ honly)
  | cons hhead _ ih => exact List.forall_mem_cons.mpr ⟨hP _ _ hhead, ih⟩

end Forms

variable {ts : List Token}

lemma TypeExpr.Head.namesDeclared {type : Phrase TypeExpr} {t : TypeExpr} (h : Head type ts t) :
    t.NamesDeclared := by
  cases h with
  | named hname hdeclared =>
    refine ⟨?_, hdeclared⟩
    cases hname with
    | mk hnames => cases hnames <;> simp
  | _ => trivial

lemma TypeExpr.Arrayed.namesDeclared {type : Phrase TypeExpr} {t : TypeExpr}
    (h : Arrayed type ts t) : t.NamesDeclared := by
  induction h with
  | head hhead => exact hhead.namesDeclared
  | array _ ih => exact ih

lemma TypeExpr.Derives.namesDeclared {t : TypeExpr} (h : Derives ts t) : t.NamesDeclared := by
  cases h with
  | plain htype => exact htype.namesDeclared
  | nullable _ => trivial

lemma Parameter.InParens.namesDeclared {params : List Parameter} (h : InParens ts params) :
    ∀ t ∈ params.map (·.type), t.NamesDeclared := by
  refine List.forall_mem_map.mpr ?_
  cases h with
  | nil => exact fun _ h => absurd h List.not_mem_nil
  | list hparams =>
    refine hparams.forall fun _ p hp => ?_
    cases hp with
    | mk _ _ _ htype => exact htype.namesDeclared

lemma MemberKind.Derives.namesDeclared {typeName name : String} {visibility : Visibility}
    {kind : MemberKind} (h : Derives typeName visibility ts (name, kind)) :
    ∀ t ∈ kind.inputs, t.NamesDeclared := by
  cases h with
  | constructor hparams => exact hparams.namesDeclared
  | method _ _ hparams => exact hparams.namesDeclared
  | property _ htype _ => exact List.forall_mem_singleton.mpr htype.namesDeclared

lemma ClassBody.Derives.namesDeclared {typeName : String} {body : ClassBody}
    (h : Derives typeName ts body) : ∀ m ∈ body.members, ∀ t ∈ m.kind.inputs, t.NamesDeclared := by
  cases h with
  | mk _ hmembers _ =>
    refine hmembers.forall fun _ m hm => ?_
    cases hm with
    | mk _ _ _ hkind => exact hkind.namesDeclared

lemma TypeDecl.Derives.namesDeclared {d : TypeDecl} (h : Derives ts d) : d.NamesDeclared := by
  cases h with
  | mk _ _ _ hbody =>
    cases hbody with
    | classBody hbody => exact hbody.namesDeclared
    | structBody hbody => exact hbody.namesDeclared
    | enumBody _ => exact fun _ h => absurd h List.not_mem_nil

/-- What the items of a text declare, at any depth of namespaces. -/
lemma Item.namesDeclared_of_many {items : List (Option Item)} (h : Many Item.Derives ts items) :
    ∀ scope, ∀ new ∈ Declared.ofItems scope items.reduceOption, new.decl.NamesDeclared := by
  -- items hold items by way of lists of them, so both are covered at once
  refine @Item.Derives.rec_1
    (fun _ item? _ => ∀ item ∈ item?, ∀ scope, ∀ new ∈ Declared.ofItem scope item,
      new.decl.NamesDeclared)
    (fun _ items _ => ∀ scope, ∀ new ∈ Declared.ofItems scope items.reduceOption,
      new.decl.NamesDeclared) ?directive ?inNamespace ?declared ?nil ?cons ts items h
  case directive => exact fun _ _ h => absurd h (Option.not_mem_none _)
  case inNamespace =>
    rintro _ _ _ _ _ _ ih _ ⟨⟩ scope
    exact ih _
  case declared =>
    rintro _ decl hdecl _ ⟨⟩ scope
    exact List.forall_mem_singleton.mpr hdecl.namesDeclared
  case nil => exact fun _ _ h => absurd h List.not_mem_nil
  case cons =>
    intro _ _ item? items _ _ ihhead ih scope
    cases item? with
    | none =>
      rw [List.reduceOption_cons_of_none]
      exact ih scope
    | some item =>
      rw [List.reduceOption_cons_of_some, Declared.ofItems]
      exact List.forall_mem_append.mpr ⟨ihhead item rfl scope, ih scope⟩

/-- What the members of a text take names declared types. -/
lemma Assembly.namesDeclared_of_ofLexemes {ls : List Lexeme} {a : Assembly}
    (h : ofLexemes ls = .ok a) :
    ∀ new ∈ Declared.ofItems [] a.withoutSpans.items, new.decl.NamesDeclared := by
  rw [ofLexemes] at h
  cases hread : Reader.bounded (Item.readTo fun _ => false) (.ofLexemes ls) with
  | error e =>
    rw [hread] at h
    cases h
  | ok read =>
    rw [hread] at h
    cases h
    obtain ⟨ts, -, -, hderives⟩ := Item.readTo_soundAt _ _ _ _ _ hread
    generalize Assembly.withoutSpans ⟨read.1⟩ = a at hderives ⊢
    cases hderives with
    | mk hitems => exact Item.namesDeclared_of_many hitems []

end Source

namespace Model

open Source

/-! ### Types that names mean -/

/-- What a type names, be it as an element of arrays, has a path that is no word of a built-in
type. -/
def ManagedType.NamesDeclared (t : ManagedType) : Prop :=
  ∀ path, t.namedPath? = some path → DottedName.IsDeclared ⟨path.segments, .nowhere⟩

lemma Declared.exists_take_of_lookup? {decls : List Declared} {scope : List String}
    {name : DottedName} {found : Declared} (h : lookup? decls scope name = some found) :
    ∃ depth, found.path.segments = scope.take depth ++ name.segments := by
  have hfrom : ∀ depth, lookupFrom decls scope name.segments depth = some found →
      ∃ depth, found.path.segments = scope.take depth ++ name.segments := by
    intro depth hlookup
    induction depth with
    | zero => exact ⟨0, by simpa using List.find?_some hlookup⟩
    | succ depth ih =>
      rw [lookupFrom, Option.or_eq_some_iff] at hlookup
      rcases hlookup with hfind | ⟨-, hrest⟩
      · exact ⟨depth + 1, by simpa using List.find?_some hfind⟩
      · exact ih hrest
  exact hfrom _ h

/-- The path behind a name is as long as the name at least, so a word alone is its own name. -/
lemma isDeclared_of_take {scope : List String} {name : DottedName} (hne : name.segments ≠ [])
    (h : name.IsDeclared) {segments : List String} {depth : Nat}
    (hsegments : segments = scope.take depth ++ name.segments) :
    DottedName.IsDeclared ⟨segments, .nowhere⟩ := by
  have hword : ∀ word, name.segments ≠ [word] → segments ≠ [word] := by
    rintro word hname rfl
    rcases List.append_eq_singleton_iff.mp hsegments.symm with ⟨-, h⟩ | ⟨-, h⟩
    · exact hname h
    · exact hne h
  exact ⟨hword _ h.1, fun p => hword _ (h.2 p)⟩

lemma namesDeclared_of_resolveName {decls : List Declared} {m : BindingModel}
    {scope : List String} {member : String} {name : DottedName} {t : ManagedType}
    (hne : name.segments ≠ []) (hdeclared : name.IsDeclared)
    (h : resolveName decls m scope member name = .ok t) : t.NamesDeclared := by
  obtain ⟨-, found, hfound, hpath⟩ := found_of_resolveName h
  obtain ⟨depth, hsegments⟩ := Declared.exists_take_of_lookup? hfound
  intro path hpath'
  cases hpath.symm.trans hpath'
  exact isDeclared_of_take hne hdeclared hsegments

lemma namesDeclared_of_resolveType {decls : List Declared} {m : BindingModel}
    {scope : List String} {member : String} {expr : TypeExpr} {t : ManagedType}
    (hexpr : expr.NamesDeclared) (h : resolveType decls m scope member expr = .ok t) :
    t.NamesDeclared := by
  induction expr using resolveType.induct generalizing t with
  | case1 => cases h
  | case2 p =>
    cases h
    exact fun _ h => by cases h
  | case3 =>
    cases h
    exact fun _ h => by cases h
  | case4 name => exact namesDeclared_of_resolveName hexpr.1 hexpr.2 h
  | case5 inner => cases h
  | case6 element hjagged ih =>
    rw [resolveType.eq_6 _ _ _ _ _ hjagged] at h
    cases helement : resolveType decls m scope member element with
    | error fault =>
      rw [helement] at h
      cases h
    | ok u =>
      rw [helement] at h
      cases h
      have helement : u.NamesDeclared := ih hexpr helement
      exact helement
  | case7 name args => cases h
  | case8 inner => cases h

/-! ### The parameters of functions -/

lemma Candidate.Exports.type_mem_inputs {m : Member} {c : Candidate} (h : Exports m c)
    {q : CandidateParam} (hq : q ∈ c.params) : q.type ∈ m.kind.inputs := by
  cases h with
  | constructor hkind span =>
    obtain ⟨p, hp, rfl⟩ := List.mem_map.mp hq
    exact hkind ▸ List.mem_map_of_mem hp
  | method hkind span =>
    obtain ⟨p, hp, rfl⟩ := List.mem_map.mp hq
    exact hkind ▸ List.mem_map_of_mem hp
  | getter _ span => cases hq
  | setter hkind span =>
    rw [List.mem_singleton.mp hq, hkind]
    exact List.mem_singleton_self _

lemma Declared.namesDeclared_candidates {new : Declared} (h : new.decl.NamesDeclared)
    {c : Candidate × Nat} (hc : c ∈ new.candidates) {q : CandidateParam} (hq : q ∈ c.1.params) :
    q.type.NamesDeclared := by
  rcases exports_or hc with ⟨span, hconstructor⟩ | ⟨body, hbody, m, hm, hexports⟩
  · rw [hconstructor] at hq
    cases hq
  · refine h m ?_ _ (hexports.type_mem_inputs hq)
    rw [hbody]
    exact hm

lemma Declared.mem_ofItems {a : Assembly} {new : Declared} (h : new ∈ (ofAssembly a).1) :
    new ∈ ofItems [] a.items := by
  rw [ofAssembly, distinct] at h
  refine List.foldlRecOn (motive := fun s : List Declared × Draft =>
    ∀ new ∈ s.1, new ∈ ofItems [] a.items) _ _ ?_ ?_ new h
  · exact fun _ h => absurd h List.not_mem_nil
  · rintro ⟨kept, d⟩ hkept new hnew
    dsimp only
    split
    · exact hkept
    · exact List.forall_mem_append.mpr ⟨hkept, List.forall_mem_singleton.mpr hnew⟩

/-- In the model of a text, the types of parameters name declared types. -/
theorem namesDeclared_of_ofText {source : String} {a : Assembly}
    (h : Assembly.ofText source = .ok a) {f : NativeFunction}
    (hf : f ∈ (BindingModel.ofAssembly a).functions) : ∀ p ∈ f.params, p.type.NamesDeclared := by
  have hdecls : ∀ new ∈ Declared.ofItems [] a.withoutSpans.items, new.decl.NamesDeclared := by
    rw [Assembly.ofText] at h
    cases hls : Lexeme.ofText source with
    | error e =>
      rw [hls] at h
      cases h
    | ok ls =>
      rw [hls] at h
      exact Assembly.namesDeclared_of_ofLexemes h
  -- the grammar speaks of trees without spans, whose model has the same parameters
  have hmem : f.withoutSpan ∈ (BindingModel.ofAssembly a.withoutSpans).functions := by
    rw [ofAssembly_withoutSpans]
    exact List.mem_map_of_mem hf
  obtain ⟨new, hnew, c, hc, -, hbind⟩ := exists_bindFunction hmem
  have hparams := (isBinding_of_bindFunction hbind).params
  intro p hp
  obtain ⟨q, hq, hbound⟩ := exists_of_mem_mapM _ hparams p hp
  have hwritten := Declared.namesDeclared_candidates (hdecls new (Declared.mem_ofItems hnew)) hc hq
  rw [bindParam] at hbound
  split at hbound
  · cases hbound
  · rename_i t ht
    split at hbound
    · cases hbound
    · cases hbound
      exact namesDeclared_of_resolveType hwritten ht

end Model

end Interop
