/-
# Ordinals

The ordinal of an exported member counts the members of its name that come before it, bound or not.
So it does not depend on any type: in an assembly with other types in the same places
(`Assembly.outline`), a member that is bound has the same ordinal and the same symbol.

That a member is bound as a function means that its step of the last pass added the function
(`BoundAs`).

Main result: `ordinals_stable`.
-/
import Interop.Proofs.Model.PassedTypes
import Interop.Proofs.Source.Spans

namespace Interop

open Model

namespace Source

/-! ### Outlines -/

def MemberKind.untyped : MemberKind → MemberKind
  | .constructor params => .constructor (params.map fun p => { p with type := .void })
  | .method params _ => .method (params.map fun p => { p with type := .void }) .void
  | .property _ getter setter => .property .void getter setter

/-- A member without the types of its parameters, of its result or of its property. -/
def Member.untyped (m : Member) : Member := { m with kind := m.kind.untyped }

def ClassBody.untyped (b : ClassBody) : ClassBody := { b with members := b.members.map (·.untyped) }

def TypeBody.untyped : TypeBody → TypeBody
  | .classBody body => .classBody body.untyped
  | .structBody body => .structBody body.untyped
  | .enumBody body => .enumBody body

/-- A member with other types in the same places, and without spans. -/
def Member.retyped (g : TypeExpr → TypeExpr) (m : Member) : Member :=
  let retypedParam (p : Parameter) : Parameter := { p with type := g p.type, span := .nowhere }
  { m with
    kind := match m.kind with
      | .constructor params => .constructor (params.map retypedParam)
      | .method params returns => .method (params.map retypedParam) (g returns)
      | .property type getter setter =>
        .property (g type) (getter.map (·.withoutSpans)) (setter.map (·.withoutSpans))
    span := .nowhere }

lemma Member.untyped_withoutSpans (m : Member) :
    m.untyped.withoutSpans = m.retyped fun _ => .void := by
  obtain ⟨name, kind, visibility, isStatic, span⟩ := m
  cases kind <;> simp [untyped, withoutSpans, retyped, MemberKind.untyped, MemberKind.withoutSpans,
    Parameter.withoutSpans, TypeExpr.withoutSpans]

/-- A declaration without the types in its members, and without spans. -/
def TypeDecl.outline (d : TypeDecl) : TypeDecl :=
  TypeDecl.withoutSpans { d with body := d.body.untyped }

/-- What is left of an assembly without the types in its members, and without spans. -/
def Assembly.outline (a : Assembly) : Assembly := ⟨Item.redeclareAll TypeDecl.outline a.items⟩

end Source

namespace Model

open Source

/-- A declaration with another content under its name. -/
def Declared.redeclare (g : TypeDecl → TypeDecl) (new : Declared) : Declared :=
  ⟨new.path, g new.decl⟩

mutual

lemma ofItem_redeclare {g : TypeDecl → TypeDecl} (hg : ∀ d, (g d).name = d.name)
    (scope : List String) : ∀ item : Item,
      Declared.ofItem scope (item.redeclare g) = (Declared.ofItem scope item).map (·.redeclare g)
  | .inNamespace path items span => by
    rw [Item.redeclare, Declared.ofItem, Declared.ofItem]
    exact ofItems_redeclare hg (scope ++ path) items
  | .declared decl => by
    rw [Item.redeclare, Declared.ofItem, Declared.ofItem, hg]
    rfl

lemma ofItems_redeclare {g : TypeDecl → TypeDecl} (hg : ∀ d, (g d).name = d.name)
    (scope : List String) : ∀ items : List Item,
      Declared.ofItems scope (Item.redeclareAll g items) =
        (Declared.ofItems scope items).map (·.redeclare g)
  | [] => rfl
  | item :: items => by
    rw [Item.redeclareAll, Declared.ofItems, Declared.ofItems, List.map_append,
      ofItem_redeclare hg scope item, ofItems_redeclare hg scope items]

end

/-- Which declarations are kept does not depend on their content. -/
lemma distinct_redeclare (g : TypeDecl → TypeDecl) (decls : List Declared) :
    (Declared.distinct (decls.map (·.redeclare g))).1 =
      (Declared.distinct decls).1.map (·.redeclare g) := by
  rw [Declared.distinct, Declared.distinct, List.foldl_map]
  refine List.foldl_rel (r := fun s s' : List Declared × Draft =>
    s.1 = s'.1.map (·.redeclare g)) rfl ?_
  rintro new _ ⟨_, d⟩ ⟨kept, d'⟩ rfl
  have hfind : (Declared.find? (kept.map (·.redeclare g)) (new.redeclare g).path.segments).isSome =
      (Declared.find? kept new.path.segments).isSome := by
    rw [Declared.find?, List.find?_map, Option.isSome_map]
    rfl
  dsimp only
  by_cases hknown : (Declared.find? kept new.path.segments).isSome
  · rw [if_pos (hfind.trans hknown), if_pos hknown]
  · rw [if_neg fun h => hknown (hfind.symm.trans h), if_neg hknown, List.map_append]
    rfl

lemma ofAssembly_outline (a : Assembly) :
    (Declared.ofAssembly a.outline).1 =
      (Declared.ofAssembly a).1.map (·.redeclare TypeDecl.outline) := by
  rw [Declared.ofAssembly, Assembly.outline, ofItems_redeclare (g := TypeDecl.outline)
    fun _ => rfl, distinct_redeclare]
  rfl

/-! ### Exported members of an outline -/

namespace Candidate

/-- What is left of an exported member without types and spans. -/
def outline (c : Candidate) : Candidate :=
  { c with
    params := c.params.map fun p => { p with type := .void, span := .nowhere }
    result := match c.result with
      | .value _ => .value .void
      | result => result
    span := .nowhere }

/-- An exported member with other types in the same places, and without spans. -/
def retyped (g : TypeExpr → TypeExpr) (c : Candidate) : Candidate :=
  { c with
    params := c.params.map fun p => { p with type := g p.type, span := .nowhere }
    result := match c.result with
      | .value type => .value (g type)
      | result => result
    span := .nowhere }

section Retyped

variable (g : TypeExpr → TypeExpr)

lemma ofAccessor?_retyped (accessor : Option Accessor) {make make' : Span → Candidate}
    (hmake : ∀ span, make' .nowhere = (make span).retyped g) (span : Span) :
    ofAccessor? (accessor.map (·.withoutSpans)) make' .nowhere =
      (ofAccessor? accessor make span).map (retyped g) := by
  cases accessor with
  | none => rfl
  | some a =>
    obtain ⟨visibility, span'⟩ := a
    rw [Option.map_some, ofAccessor?, ofAccessor?, Accessor.withoutSpans]
    dsimp only
    split
    · rw [List.map_singleton, Span.nowhere_merge_nowhere, hmake]
    · rfl

/-- Which functions a member is exported as does not depend on its types. -/
lemma ofMember_retyped (m : Member) : ofMember (m.retyped g) = (ofMember m).map (retyped g) := by
  obtain ⟨name, kind, visibility, isStatic, span⟩ := m
  rw [Member.retyped, ofMember, ofMember]
  dsimp only
  by_cases hpublic : visibility ≠ .publicAccess
  · rw [if_pos hpublic, if_pos hpublic]
    rfl
  · rw [if_neg hpublic, if_neg hpublic]
    cases kind with
    | constructor params =>
      dsimp only
      by_cases hstatic : isStatic
      · rw [if_pos hstatic, if_pos hstatic]
        rfl
      · rw [if_neg hstatic, if_neg hstatic]
        simp [ofConstructor, retyped, paramOf]
    | method params returns => simp [retyped, paramOf]
    | property type getter setter =>
      dsimp only
      rw [List.map_append]
      congr 1
      · apply ofAccessor?_retyped
        exact fun _ => rfl
      · apply ofAccessor?_retyped
        exact fun _ => rfl

lemma ofClass_retyped {decl decl' : TypeDecl} {body body' : ClassBody}
    (hstatic : decl'.isStatic = decl.isStatic) (hspan : decl'.span = .nowhere)
    (hbody : body'.members = body.members.map (·.retyped g)) :
    ofClass decl' body' = (ofClass decl body).map (retyped g) := by
  have hany : (body.members.map (·.retyped g)).any isInstanceConstructor =
      body.members.any isInstanceConstructor := by
    rw [List.any_map]
    congr 1
    funext m
    cases hkind : m.kind <;> simp [isInstanceConstructor, Member.retyped, hkind]
  have hmembers : (body.members.map (·.retyped g)).flatMap ofMember =
      (body.members.flatMap ofMember).map (retyped g) := by
    rw [List.flatMap_map, List.map_flatMap]
    congr 1
    funext m
    exact ofMember_retyped g m
  rw [ofClass, ofClass, List.map_append, hbody, hany, hmembers, hstatic, hspan]
  congr 1
  split <;> rfl

lemma withOrdinals_retyped (cs : List Candidate) : ∀ before : List String,
    withOrdinals before (cs.map (retyped g)) =
      (withOrdinals before cs).map (Prod.map (retyped g) id) := by
  induction cs with
  | nil => exact fun _ => rfl
  | cons c cs ih =>
    intro before
    rw [List.map_cons, withOrdinals, withOrdinals, List.map_cons, ih]
    rfl

end Retyped

lemma ofClass_outline (decl : TypeDecl) (body : ClassBody) :
    ofClass decl.outline body.untyped.withoutSpans = (ofClass decl body).map outline := by
  refine ofClass_retyped (fun _ => .void) rfl rfl ?_
  dsimp only [ClassBody.withoutSpans, ClassBody.untyped]
  rw [List.map_map]
  exact List.map_congr_left fun m _ => m.untyped_withoutSpans

lemma withOrdinals_outline (cs : List Candidate) (before : List String) :
    withOrdinals before (cs.map outline) = (withOrdinals before cs).map (Prod.map outline id) :=
  withOrdinals_retyped (fun _ => .void) cs before

/-- The ordinal counts the members of the same name before. -/
lemma getElem?_withOrdinals (cs : List Candidate) : ∀ (before : List String) (k : Nat),
    (withOrdinals before cs)[k]? = cs[k]?.map fun c =>
      (c, (before ++ (cs.take k).map (·.nativeMember)).count c.nativeMember) := by
  induction cs with
  | nil => exact fun _ _ => rfl
  | cons c cs ih =>
    intro before k
    rw [withOrdinals]
    cases k with
    | zero => simp
    | succ k => simp [ih]

lemma map_fst_withOrdinals (cs : List Candidate) : ∀ before : List String,
    (withOrdinals before cs).map (·.1) = cs := by
  induction cs with
  | nil => exact fun _ => rfl
  | cons c cs ih =>
    intro before
    rw [withOrdinals, List.map_cons, ih]

end Candidate

lemma ordinal_eq {new : Declared} {k : Nat} {c : Candidate × Nat}
    (h : new.candidates[k]? = some c) :
    c.2 = ((new.candidates.take k).map (·.1.nativeMember)).count c.1.nativeMember := by
  rw [Declared.candidates] at h ⊢
  split at h
  · rename_i body _
    have hnames : ((Candidate.withOrdinals [] (Candidate.ofClass new.decl body)).take k).map
        (·.1.nativeMember) =
          ((Candidate.ofClass new.decl body).take k).map (·.nativeMember) := by
      rw [← Candidate.map_fst_withOrdinals (Candidate.ofClass new.decl body) [], ← List.map_take,
        List.map_map, Candidate.map_fst_withOrdinals]
      rfl
    rw [Candidate.getElem?_withOrdinals] at h
    obtain ⟨d, _, rfl⟩ := Option.map_eq_some_iff.mp h
    dsimp only
    rw [hnames, List.nil_append]
  · simp at h

lemma candidates_outline (new : Declared) :
    (new.redeclare TypeDecl.outline).candidates =
      new.candidates.map (Prod.map Candidate.outline id) := by
  obtain ⟨path, decl⟩ := new
  cases hbody : decl.body with
  | classBody body =>
    simp only [Declared.candidates, Declared.redeclare, TypeDecl.outline, TypeDecl.withoutSpans,
      TypeBody.untyped, TypeBody.withoutSpans, hbody]
    rw [← Candidate.withOrdinals_outline, ← Candidate.ofClass_outline]
    simp only [TypeDecl.outline, TypeDecl.withoutSpans, TypeBody.untyped, TypeBody.withoutSpans,
      hbody]
  | structBody | enumBody =>
    simp only [Declared.candidates, Declared.redeclare, TypeDecl.outline, TypeDecl.withoutSpans,
      TypeBody.untyped, TypeBody.withoutSpans, hbody, List.map_nil]

/-! ### Bound members -/

/-- The draft before the `k`-th exported member of a declaration is bound; `before` are the
declarations before this one. -/
def Draft.atMember (a : Assembly) (before : List Declared) (new : Declared) (k : Nat) : Draft :=
  (new.candidates.take k).foldl (bindMember (Declared.ofAssembly a).1 new.path)
    (before.foldl (bindMembers (Declared.ofAssembly a).1) (typesOf a))

/-- The `k`-th exported member of a bound class is bound as a function: its step adds it. -/
def BoundAs (a : Assembly) (new : Declared) (k : Nat) (f : NativeFunction) : Prop :=
  ((Draft.typesOf a).model.class? new.path).isSome ∧
  ∃ before after c, (Declared.ofAssembly a).1 = before ++ new :: after ∧
    new.candidates[k]? = some c ∧
    ((Draft.atMember a before new k).bindMember (Declared.ofAssembly a).1 new.path
      c).model.functions = (Draft.atMember a before new k).model.functions ++ [f]

/-- Where a pass comes to something, there is a step that does. -/
lemma exists_step {σ α : Type} {p : σ → Prop} {step : σ → α → σ} (xs : List α) :
    ∀ s, ¬ p s → p (xs.foldl step s) → ∃ k x, xs[k]? = some x ∧
      ¬ p ((xs.take k).foldl step s) ∧ p (step ((xs.take k).foldl step s) x) := by
  induction xs with
  | nil => exact fun s hs h => absurd h hs
  | cons x xs ih =>
    intro s hs h
    by_cases hx : p (step s x)
    · exact ⟨0, x, rfl, hs, hx⟩
    · obtain ⟨k, y, hy, hbefore, hafter⟩ := ih _ hx h
      exact ⟨k + 1, y, hy, hbefore, hafter⟩

lemma append_of_getElem? {α : Type} {xs : List α} {k : Nat} {x : α} (h : xs[k]? = some x) :
    xs = xs.take k ++ x :: xs.drop (k + 1) := by
  obtain ⟨hlt, rfl⟩ := List.getElem?_eq_some_iff.mp h
  rw [← List.drop_eq_getElem_cons hlt, List.take_append_drop]

lemma Draft.grows_foldl {α : Type} {step : Draft → α → Draft}
    (h : ∀ (d : Draft) (x : α), d.Grows (step d x)) (xs : List α) (d : Draft) :
    d.Grows (xs.foldl step d) :=
  List.foldlRecOn (motive := fun d' => d.Grows d') xs step (Registers.refl d).grows
    fun d' hd x _ => hd.trans (h d' x)

section

variable {a : Assembly} {new : Declared} {k : Nat} {f : NativeFunction}

/-- The types are there when members are bound. -/
lemma class?_foldl_bindMembers (before : List Declared) :
    (before.foldl (Draft.bindMembers (Declared.ofAssembly a).1) (Draft.typesOf a)).model.class?
      new.path = (Draft.typesOf a).model.class? new.path := by
  rw [BindingModel.class?, BindingModel.class?,
    (Draft.grows_foldl (Draft.grows_bindMembers _) before _).classes]

/-- A function of a model is what a member is bound as. -/
lemma exists_boundAs (hf : f ∈ (BindingModel.ofAssembly a).functions) :
    ∃ new k, BoundAs a new k f := by
  have hstart : f ∉ (Draft.typesOf a).model.functions := by
    rw [functions_typesOf]
    exact List.not_mem_nil
  -- the class in whose turn the function is added, and in it the member
  obtain ⟨j, new, hnew, hnot, hin⟩ := exists_step (p := fun d : Draft => f ∈ d.model.functions)
    (Declared.ofAssembly a).1 _ hstart hf
  rw [Draft.bindMembers_eq] at hin
  split at hin
  · rename_i hclass
    rw [class?_foldl_bindMembers] at hclass
    obtain ⟨k, c, hc, hnot', hin'⟩ := exists_step (p := fun d : Draft => f ∈ d.model.functions)
      new.candidates _ hnot hin
    refine ⟨new, k, hclass, _, _, c, append_of_getElem? hnew, hc, ?_⟩
    rcases Draft.bindMember_cases (Declared.ofAssembly a).1 new.path _ c with hr | ⟨g, _, _, heq⟩
    · rw [hr.functions] at hin'
      exact absurd hin' hnot'
    · rw [heq] at hin'
      rcases List.mem_append.mp hin' with hin' | hin'
      · exact absurd hin' hnot'
      · rw [List.mem_singleton.mp hin', Draft.atMember, heq]
  · exact absurd hin hnot

lemma BoundAs.mem (h : BoundAs a new k f) : f ∈ (BindingModel.ofAssembly a).functions := by
  obtain ⟨hclass, before, after, c, hsplit, hc, hstep⟩ := h
  have hclasses := congrArg (List.foldl (Draft.bindMembers (Declared.ofAssembly a).1)
    (Draft.typesOf a)) hsplit
  have hmembers := congrArg (List.foldl (Draft.bindMember (Declared.ofAssembly a).1 new.path)
    (before.foldl (Draft.bindMembers (Declared.ofAssembly a).1) (Draft.typesOf a)))
    (append_of_getElem? hc)
  rw [List.foldl_append, List.foldl_cons, Draft.bindMembers_eq, class?_foldl_bindMembers,
    if_pos hclass] at hclasses
  rw [List.foldl_append, List.foldl_cons] at hmembers
  -- nothing is taken back behind the member in its class, and behind its class
  have hlater : ((Draft.atMember a before new k).bindMember (Declared.ofAssembly a).1 new.path
      c).Grows (Draft.ofAssembly a) := by
    have h₁ := Draft.grows_foldl (Draft.grows_bindMember (Declared.ofAssembly a).1 new.path)
      (new.candidates.drop (k + 1))
      ((Draft.atMember a before new k).bindMember (Declared.ofAssembly a).1 new.path c)
    have h₂ := Draft.grows_foldl (Draft.grows_bindMembers (Declared.ofAssembly a).1) after
      (new.candidates.foldl (Draft.bindMember (Declared.ofAssembly a).1 new.path)
        (before.foldl (Draft.bindMembers (Declared.ofAssembly a).1) (Draft.typesOf a)))
    rw [← hclasses, hmembers] at h₂
    exact h₁.trans h₂
  refine hlater.functions f ?_
  rw [hstep]
  exact List.mem_append_right _ (List.mem_singleton_self f)

/-- The types do not change while members are bound. -/
lemma bindFunction_atMember (before : List Declared) (k : Nat) (c : Candidate × Nat) :
    bindFunction (Declared.ofAssembly a).1 (Draft.atMember a before new k).model new.path c.1 c.2 =
      bindFunction (Declared.ofAssembly a).1 (Draft.typesOf a).model new.path c.1 c.2 := by
  have hgrows := (Draft.grows_foldl (Draft.grows_bindMembers (Declared.ofAssembly a).1) before
    (Draft.typesOf a)).trans (Draft.grows_foldl
      (Draft.grows_bindMember (Declared.ofAssembly a).1 new.path) (new.candidates.take k) _)
  exact bindFunction_congr hgrows.classes hgrows.enums _ _ _ _

lemma BoundAs.isBinding (h : BoundAs a new k f) : new ∈ (Declared.ofAssembly a).1 ∧
    ∃ c, new.candidates[k]? = some c ∧
      IsBinding (Declared.ofAssembly a).1 (Draft.typesOf a).model new.path c.1 c.2 f := by
  obtain ⟨_, before, after, c, hsplit, hc, hstep⟩ := h
  refine ⟨by simp [hsplit], c, hc, isBinding_of_bindFunction ?_⟩
  rw [← bindFunction_atMember before k]
  rcases (Draft.atMember a before new k).bindMember_cases (Declared.ofAssembly a).1 new.path c with
    hr | ⟨g, hg, _, heq⟩
  · rw [hr.functions] at hstep
    simp at hstep
  · rw [heq] at hstep
    obtain rfl : g = f := by simpa using hstep
    exact hg

lemma BoundAs.spec (h : BoundAs a new k f) : new ∈ (Declared.ofAssembly a).1 ∧
    ∃ c, new.candidates[k]? = some c ∧ f.owner = new.path ∧ f.ordinal = c.2 ∧
      f.symbol = new.path.memberSymbol c.1.nativeMember c.2 := by
  obtain ⟨hnew, c, hc, hbinding⟩ := h.isBinding
  exact ⟨hnew, c, hc, hbinding.owner, hbinding.ordinal, hbinding.symbol⟩

/-- Declarations of one name have one outline in assemblies of one outline. -/
lemma outline_eq {a' : Assembly} (h : a'.outline = a.outline) {new' : Declared}
    (hnew : new ∈ (Declared.ofAssembly a).1) (hnew' : new' ∈ (Declared.ofAssembly a').1)
    (hpath : new'.path = new.path) :
    new'.redeclare TypeDecl.outline = new.redeclare TypeDecl.outline := by
  have hmem : new.redeclare TypeDecl.outline ∈ (Declared.ofAssembly a.outline).1 := by
    rw [ofAssembly_outline]
    exact List.mem_map_of_mem hnew
  have hmem' : new'.redeclare TypeDecl.outline ∈ (Declared.ofAssembly a.outline).1 := by
    rw [← h, ofAssembly_outline]
    exact List.mem_map_of_mem hnew'
  exact List.inj_on_of_nodup_map (nodup_path_ofAssembly a.outline) hmem' hmem hpath

end

/-- Ordinals are stable:

The ordinal of an exported member is the number of exported members of its class before it that
have its native name, bound or not; and where it is bound, the function has that ordinal and the
symbol that goes with it.  The functions of a model are what its members are bound as.  In an
assembly with other types in its members, the members are the same, and one that is bound in both
has the same symbol and ordinal in both. -/
theorem ordinals_stable (a : Assembly) :
    (∀ new ∈ (Declared.ofAssembly a).1,
      (∀ body, new.decl.body = .classBody body →
        new.candidates.map (·.1) = Candidate.ofClass new.decl body) ∧
      ∀ (k : Nat) (c : Candidate × Nat), new.candidates[k]? = some c →
        c.2 = ((new.candidates.take k).map (·.1.nativeMember)).count c.1.nativeMember ∧
        ∀ f, BoundAs a new k f → f.owner = new.path ∧ f.ordinal = c.2 ∧
          f.symbol = new.path.memberSymbol c.1.nativeMember c.2) ∧
    (∀ f, f ∈ (BindingModel.ofAssembly a).functions ↔ ∃ new k, BoundAs a new k f) ∧
    ∀ a' : Assembly, a'.outline = a.outline →
      ∀ new ∈ (Declared.ofAssembly a).1, ∀ new' ∈ (Declared.ofAssembly a').1,
        new'.path = new.path →
          new'.candidates.map (·.1.outline) = new.candidates.map (·.1.outline) ∧
          ∀ k f f', BoundAs a new k f → BoundAs a' new' k f' →
            f'.symbol = f.symbol ∧ f'.ordinal = f.ordinal := by
  refine ⟨?_, ?_, ?_⟩
  · intro new _
    constructor
    · intro body hbody
      simp only [Declared.candidates, hbody]
      exact Candidate.map_fst_withOrdinals _ _
    · intro k c hc
      refine ⟨ordinal_eq hc, ?_⟩
      intro f hf
      obtain ⟨_, c', hc', hspec⟩ := hf.spec
      rw [hc] at hc'
      obtain rfl := Option.some.inj hc'
      exact hspec
  · intro f
    refine ⟨exists_boundAs, ?_⟩
    rintro ⟨_, _, h⟩
    exact h.mem
  · intro a' ha new hnew new' hnew' hpath
    have houtline := outline_eq ha hnew hnew' hpath
    have hcandidates := candidates_outline new'
    rw [houtline, candidates_outline new] at hcandidates
    constructor
    · have := congrArg (List.map Prod.fst) hcandidates
      rw [List.map_map, List.map_map] at this
      exact this.symm
    · intro k f f' hf hf'
      obtain ⟨_, c, hc, _, hordinal, hsymbol⟩ := hf.spec
      obtain ⟨_, c', hc', _, hordinal', hsymbol'⟩ := hf'.spec
      have hsame := congrArg (·[k]?) hcandidates
      rw [List.getElem?_map, List.getElem?_map, hc, hc', Option.map_some, Option.map_some] at hsame
      obtain ⟨hmember, hk⟩ := Prod.mk.inj (Option.some.inj hsame)
      have hname : c.1.outline.nativeMember = c'.1.outline.nativeMember :=
        congrArg Candidate.nativeMember hmember
      rw [hordinal, hordinal', hsymbol, hsymbol', hpath, show c.2 = c'.2 from hk,
        show c.1.nativeMember = c'.1.nativeMember from hname]
      exact ⟨rfl, rfl⟩

/-- A class with three overloads, the one in the middle with a parameter of a given type. -/
def overloads (type : TypeExpr) : TypeDecl :=
  let foo (type : TypeExpr) : Member :=
    ⟨"Foo", .method [⟨"a", type, .unmarked, .nowhere⟩] .void, .publicAccess, false, .nowhere⟩
  ⟨"T", .classBody ⟨none, [foo (.primitive .int32), foo type, foo .string]⟩, .publicAccess, false,
    [], .nowhere⟩

/-- Whether the overload in the middle is bound or not, the last one has the ordinal 2. -/
theorem ordinals_stable_overloads :
    let a : Assembly := ⟨[.declared (overloads (.named ⟨["decimal"], .nowhere⟩))]⟩
    let a' : Assembly := ⟨[.declared (overloads (.primitive .int64))]⟩
    a'.outline = a.outline ∧ ∃ new new' f f', BoundAs a new 3 f ∧ BoundAs a' new' 3 f' ∧
      f.symbol = "T_Foo_2" ∧ f'.symbol = f.symbol ∧ f'.ordinal = f.ordinal := by
  intro a a'
  let f : NativeFunction := ⟨"T_Foo_2", ⟨[], "T"⟩, "Foo", .method, false, 2,
    [⟨"a", .string, .input⟩], .void, .nowhere⟩
  have hf : BoundAs a ⟨⟨[], "T"⟩, overloads (.named ⟨["decimal"], .nowhere⟩)⟩ 3 f :=
    ⟨by decide +kernel, [], [], _, rfl, rfl, by decide +kernel⟩
  have hf' : BoundAs a' ⟨⟨[], "T"⟩, overloads (.primitive .int64)⟩ 3 f :=
    ⟨by decide +kernel, [], [], _, rfl, rfl, by decide +kernel⟩
  obtain ⟨_, hsame⟩ := (ordinals_stable a).2.2 a' rfl _ hf.spec.1 _ hf'.spec.1 rfl
  exact ⟨rfl, _, _, f, f, hf, hf', rfl, hsame 3 f f hf hf'⟩

end Model

end Interop
