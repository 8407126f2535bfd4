/-
# What binding reports

Each pass over the declarations reports faults of its own kind: of an enum, of a class, of a base,
or of a member.  So a fault in the finished model tells which pass it comes from
(`Draft.Reports`).
-/
import Interop.Proofs.Except
import Interop.Proofs.Model.Binding

namespace Interop.Model

open Source

/-- A name cannot be used, or belongs to something else. -/
inductive NameRefused : BindingFault → Prop
  | identifier (symbol member : String) (fault : NameFault) :
    NameRefused (.invalidIdentifier symbol member fault)
  | collision (symbol : String) (claimant existing : Claimant) :
    NameRefused (.nameCollision symbol claimant existing)

/-- A fault of the declaration of an enum. -/
inductive EnumRefused (path : TypePath) : BindingFault → Prop
  | name {fault : BindingFault} (h : NameRefused fault) : EnumRefused path fault
  | enum (fault : EnumFault) : EnumRefused path (.invalidEnum path fault)

/-- A fault of the declaration of a class or a struct. -/
inductive ClassRefused (path : TypePath) : BindingFault → Prop
  | name {fault : BindingFault} (h : NameRefused fault) : ClassRefused path fault
  | valueType : ClassRefused path (.unsupportedType path.dotted path.dotted .structHandle)

/-- A type cannot be passed, or is not declared. -/
inductive TypeRefused (label : String) : BindingFault → Prop
  | unsupported (type : String) (reason : UnsupportedReason) :
    TypeRefused label (.unsupportedType label type reason)
  | unknown (name : String) (hint : Option String) :
    TypeRefused label (.unknownType label name hint)

/-- A fault of a member. -/
inductive MemberRefused (owner : TypePath) (label : String) : BindingFault → Prop
  | name {fault : BindingFault} (h : NameRefused fault) : MemberRefused owner label fault
  | type {fault : BindingFault} (h : TypeRefused label fault) : MemberRefused owner label fault
  | static : MemberRefused owner label (.staticClassMember label owner)

/-! ### Types and members -/

lemma resolveName_refused {decls : List Declared} {m : BindingModel} {scope : List String}
    {label : String} {name : DottedName} {fault : BindingFault}
    (h : resolveName decls m scope label name = .error fault) : TypeRefused label fault := by
  rw [resolveName] at h
  dsimp only at h
  split at h
  · cases h
    exact .unsupported _ _
  · split at h
    · cases h
      exact .unknown _ _
    · split at h
      · cases h
        exact .unsupported _ _
      · split at h
        · split at h
          · cases h
          · cases h
            exact .unsupported _ _
        · split at h
          · split at h
            · cases h
              exact .unsupported _ _
            · cases h
          · cases h
            exact .unsupported _ _
        · cases h
          exact .unsupported _ _

lemma resolveType_refused {decls : List Declared} {m : BindingModel} {scope : List String}
    {label : String} {type : TypeExpr} {fault : BindingFault}
    (h : resolveType decls m scope label type = .error fault) : TypeRefused label fault := by
  fun_induction resolveType decls m scope label type with
  | case2 | case3 => cases h
  | case4 name => exact resolveName_refused h
  | case6 element _ ih => exact ih (eq_error_of_map h)
  | case1 | case5 | case7 | case8 =>
    cases h
    exact .unsupported _ _

lemma bindParam_refused {decls : List Declared} {m : BindingModel} {owner : TypePath}
    {label : String} {p : CandidateParam} {e : BindingError}
    (h : bindParam decls m owner label p = .error e) : TypeRefused label e.fault := by
  rw [bindParam] at h
  split at h
  · rename_i hr
    cases h
    exact resolveType_refused hr
  · split at h
    · cases h
      exact .unsupported _ _
    · cases h

lemma bindResult_refused {decls : List Declared} {m : BindingModel} {owner : TypePath}
    {label : String} {r : CandidateResult} {fault : BindingFault}
    (h : bindResult decls m owner label r = .error fault) : TypeRefused label fault := by
  unfold bindResult at h
  split at h
  · cases h
  · cases h
  · cases h
  · exact resolveType_refused h

/-- A member has no function: not for a collision, which only shows when the function is added. -/
inductive FunctionRefused (owner : TypePath) (label : String) : BindingFault → Prop
  | type {fault : BindingFault} (h : TypeRefused label fault) : FunctionRefused owner label fault
  | static : FunctionRefused owner label (.staticClassMember label owner)
  | identifier (symbol : String) (fault : NameFault) :
    FunctionRefused owner label (.invalidIdentifier symbol label fault)

lemma bindFunction_fault {decls : List Declared} {m : BindingModel} {owner : TypePath}
    {c : Candidate} {ordinal : Nat} {e : BindingError}
    (h : bindFunction decls m owner c ordinal = .error e) :
    FunctionRefused owner (memberLabel owner c.member) e.fault := by
  have hbinds := binds_bindFunction decls m owner c ordinal
  rw [h] at hbinds
  cases hbinds with
  | static => exact .static
  | params _ hparams =>
    obtain ⟨p, _, hp⟩ := exists_of_mapM_error _ hparams
    exact .type (bindParam_refused hp)
  | returns _ _ hreturns => exact .type (bindResult_refused hreturns)
  | symbol => exact .identifier _ _

lemma bindFunction_refused {decls : List Declared} {m : BindingModel} {owner : TypePath}
    {c : Candidate} {ordinal : Nat} {e : BindingError}
    (h : bindFunction decls m owner c ordinal = .error e) :
    MemberRefused owner (memberLabel owner c.member) e.fault := by
  have hfault := bindFunction_fault h
  generalize e.fault = fault at hfault ⊢
  cases hfault with
  | type h => exact .type h
  | static => exact .static
  | identifier symbol fault => exact .name (.identifier _ _ _)

/-! ### Steps and passes -/

namespace Draft

/-- Between two drafts, only faults of a kind were reported. -/
def Reports (P : BindingFault → Prop) (d d' : Draft) : Prop :=
  ∀ e ∈ d'.model.errors, e ∈ d.model.errors ∨ P e.fault

namespace Reports

variable {P Q : BindingFault → Prop} {d d' d'' : Draft}

lemma refl (P : BindingFault → Prop) (d : Draft) : d.Reports P d := fun _ h => Or.inl h

lemma trans (h : d.Reports P d') (h' : d'.Reports P d'') : d.Reports P d'' := by
  intro e he
  rcases h' e he with he | he
  · exact h e he
  · exact Or.inr he

lemma mono (h : d.Reports P d') (hPQ : ∀ fault, P fault → Q fault) : d.Reports Q d' :=
  fun e he => (h e he).imp_right (hPQ e.fault)

lemma of_eq (h : d'.model.errors = d.model.errors) : d.Reports P d' :=
  fun _ he => Or.inl (h ▸ he)

lemma report {fault : BindingFault} (h : P fault) (span : Span) :
    d.Reports P (d.report fault span) := by
  intro e he
  rcases List.mem_append.mp he with he | he
  · exact Or.inl he
  · rw [List.mem_singleton.mp he]
    exact Or.inr h

lemma foldl {α : Type} {step : Draft → α → Draft} (xs : List α)
    (h : ∀ d : Draft, ∀ x ∈ xs, d.Reports P (step d x)) (d : Draft) :
    d.Reports P (xs.foldl step d) :=
  List.foldlRecOn (motive := fun d' => d.Reports P d') xs step (.refl P d)
    fun _ hd x hx => hd.trans (h _ x hx)

end Reports

lemma reports_claim (d : Draft) (symbol : String) (claimant : Claimant) (span : Span) :
    d.Reports NameRefused (d.claim symbol claimant span).1 := by
  rcases d.claim_cases symbol claimant span with ⟨_, _, h⟩ | ⟨_, _, _, _, h⟩ | ⟨_, _, h⟩
  · rw [h]
    exact .report (.identifier _ _ _) span
  · rw [h]
    exact .report (.collision _ _ _) span
  · rw [h]
    exact .of_eq rfl

lemma reports_claimItems (path : TypePath) (valued : List (EnumItem × Int)) :
    ∀ d : Draft, d.Reports NameRefused (d.claimItems path valued).1 := by
  induction valued with
  | nil => intro d; exact .refl _ d
  | cons v valued ih =>
    intro d
    exact (d.reports_claim _ _ _).trans (ih _)

lemma reports_bindEnum (d : Draft) (new : Declared) :
    d.Reports (EnumRefused new.path) (d.bindEnum new) := by
  obtain ⟨path, decl⟩ := new
  rw [bindEnum]
  dsimp only
  split
  · rename_i body _
    split
    · exact .refl _ d
    · split
      · exact .report (.enum _) _
      · have hclaim : d.Reports (EnumRefused path) _ :=
          (d.reports_claim path.symbol (.enumType path) decl.span).mono fun _ h => .name h
        split
        · have hitems := fun valued => hclaim.trans
            ((reports_claimItems path valued _).mono fun _ h => .name h)
          split
          · exact (hitems _).trans (.report (.enum _) _)
          · exact (hitems _).trans (.of_eq rfl)
        · exact hclaim
  · exact .refl _ d

lemma reports_declareClass (d : Draft) (new : Declared) :
    d.Reports (ClassRefused new.path) (d.declareClass new) := by
  obtain ⟨path, decl⟩ := new
  rw [declareClass]
  dsimp only
  split
  · exact .refl _ d
  · split
    · exact .refl _ d
    · exact .report .valueType _
    · have hclaim : d.Reports (ClassRefused path) _ :=
        (d.reports_claim path.symbol (.classType path) decl.span).mono fun _ h => .name h
      split
      · exact hclaim.trans (.of_eq rfl)
      · exact hclaim

lemma reports_bindMember (decls : List Declared) (owner : TypePath) (d : Draft)
    (c : Candidate × Nat) :
    d.Reports (MemberRefused owner (memberLabel owner c.1.member))
      (d.bindMember decls owner c) := by
  cases hb : bindFunction decls d.model owner c.1 c.2 with
  | error e =>
    rw [bindMember_error hb]
    exact .report (bindFunction_refused hb) e.span
  | ok f =>
    rw [bindMember_ok hb]
    rcases d.addFunction_cases f with ⟨_, _, _, _, _, h⟩ | ⟨_, h⟩
    · rw [h]
      exact .report (.name (.collision _ _ _)) f.span
    · rw [h]
      exact .of_eq rfl

lemma reports_bindMembers (decls : List Declared) (d : Draft) (new : Declared) :
    d.Reports (fun fault => ∃ label, MemberRefused new.path label fault)
      (d.bindMembers decls new) := by
  rw [d.bindMembers_eq decls new]
  split
  · exact .foldl _ (fun d c _ =>
      (d.reports_bindMember decls new.path c).mono fun _ h => ⟨_, h⟩) d
  · exact .refl _ d

end Draft

/-- Collecting the declarations reports those whose name is taken. -/
lemma errors_ofAssembly (a : Assembly) :
    ∀ e ∈ (Declared.ofAssembly a).2.model.errors, ∃ path, e.fault = .duplicateType path := by
  rw [Declared.ofAssembly, Declared.distinct]
  refine List.foldlRecOn (motive := fun s : List Declared × Draft =>
    ∀ e ∈ s.2.model.errors, ∃ path, e.fault = .duplicateType path) _ _ nofun ?_
  rintro ⟨kept, d⟩ hd new _
  dsimp only
  split
  · intro e he
    rcases List.mem_append.mp he with he | he
    · exact hd e he
    · rw [List.mem_singleton.mp he]
      exact ⟨_, rfl⟩
  · exact hd

end Interop.Model
