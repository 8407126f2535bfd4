/-
# Reading without places

Each reader of the grammar agrees with itself on lists of the same tokens: where the tokens stand
decides neither what is read nor whether it is refused.  The proofs follow the readers step by step.

Main result: `Assembly.ofLexemes_alike`.
-/
import Interop.Proofs.Source.Spans
import Interop.Proofs.Source.TwoReadings
import Interop.Source.Parser
import Mathlib.Data.List.ReduceOption

namespace Interop.Source

open Reader

/-! ### Names and types -/

lemma DottedName.read_agrees (what : String) :
    Agrees DottedName.withoutSpans (read what) (read what) :=
  .next fun _ _ _ => (agrees_ident what).bind_id fun _ => .accept
    ((agrees_separated _ (agrees_ident _)).bind fun tail tail' htail =>
      .last fun _ _ => .pure (by simpa [withoutSpans] using htail))
    (.last fun _ _ => .pure rfl)

lemma DottedName.segments_eq {name name' : DottedName}
    (h : name.withoutSpans = name'.withoutSpans) : name.segments = name'.segments := by
  have hsegments := congrArg DottedName.segments h
  exact hsegments

lemma TypeExpr.withoutSpans_ofName {name name' : DottedName}
    (h : name.withoutSpans = name'.withoutSpans) :
    (ofName name).withoutSpans = (ofName name').withoutSpans := by
  obtain ⟨segments, span⟩ := name
  obtain ⟨segments', span'⟩ := name'
  cases (DottedName.segments_eq h : segments = segments')
  rcases segments with _ | ⟨word, _ | ⟨word', rest⟩⟩
  · rfl
  · simp only [ofName]
    split
    · rfl
    · cases Primitive.ofKeyword? word <;> rfl
  · rfl

lemma TypeExpr.readSuffix_agrees (n : Nat) {type type' : TypeExpr}
    (h : type.withoutSpans = type'.withoutSpans) :
    Agrees withoutSpans (readSuffix type n) (readSuffix type' n) := by
  induction n generalizing type type' with
  | zero => exact .pure h
  | succ n ih => exact .accept (.expect (ih (by simp [withoutSpans, h]))) (.pure h)

lemma TypeExpr.readWith_agrees {argument : Reader TypeExpr}
    (h : Agrees withoutSpans argument argument) :
    Agrees withoutSpans (readWith argument) (readWith argument) := by
  have hend : ∀ head head' : TypeExpr, head.withoutSpans = head'.withoutSpans →
      Agrees withoutSpans
        (do
          let type ← bounded (readSuffix head)
          if ← accept (.symbol .question) then return .nullable type
          else return type : Reader TypeExpr)
        (do
          let type ← bounded (readSuffix head')
          if ← accept (.symbol .question) then return .nullable type
          else return type : Reader TypeExpr) := fun head head' hhead =>
    (agrees_bounded fun n => readSuffix_agrees n hhead).bind fun type type' htype =>
      .accept (.pure (by simp [withoutSpans, htype])) (.pure htype)
  refine .accept (hend _ _ rfl) ?_
  refine (DottedName.read_agrees _).bind fun name name' hname => .accept ?_
    (hend _ _ (withoutSpans_ofName hname))
  refine (agrees_separated _ h).bind fun args args' hargs => .expect (hend _ _ ?_)
  rw [withoutSpans, withoutSpans, allWithoutSpans_eq_map, allWithoutSpans_eq_map, hname, hargs]

lemma TypeExpr.readTo_agrees (n : Nat) : Agrees withoutSpans (readTo n) (readTo n) := by
  induction n with
  | zero => exact agrees_unexpected _
  | succ n ih => exact readWith_agrees ih

lemma TypeExpr.read_agrees : Agrees withoutSpans read read := agrees_bounded readTo_agrees

/-! ### Constant expressions -/

section Expressions

variable {inner : Reader EnumExpr}

lemma EnumExpr.readPrimary_agrees (h : Agrees withoutSpans inner inner) :
    Agrees withoutSpans (readPrimary inner) (readPrimary inner) := by
  refine .next fun t span span' => ?_
  cases t with
  | integer value => exact .advance (.pure rfl)
  | ident head =>
    exact (DottedName.read_agrees _).bind fun name name' hname =>
      .pure (by simp [withoutSpans, DottedName.segments_eq hname])
  | symbol s =>
    cases s with
    | leftParen => exact .advance (h.bind fun e e' he => .expect (.pure he))
    | _ => exact .fail _ _ _
  | _ => exact .fail _ _ _

lemma EnumExpr.readSigns_agrees (n : Nat) :
    Agrees List.length (readSigns n) (readSigns n) := by
  induction n with
  | zero => exact .pure rfl
  | succ n ih =>
    exact .accept (.last fun _ _ => ih.bind fun starts starts' hstarts =>
      .pure (by simpa using hstarts)) (.pure rfl)

lemma EnumExpr.readUnary_agrees (h : Agrees withoutSpans inner inner) :
    Agrees withoutSpans (readUnary inner) (readUnary inner) := by
  refine (agrees_bounded readSigns_agrees).bind fun starts starts' hstarts =>
    (readPrimary_agrees h).bind fun e e' he => .pure ?_
  induction starts generalizing starts' with
  | nil =>
    cases starts' with
    | nil => exact he
    | cons start' starts' => cases hstarts
  | cons start starts ih =>
    cases starts' with
    | nil => cases hstarts
    | cons start' starts' =>
      have := ih starts' (by simpa using hstarts)
      simpa [withoutSpans] using this

lemma EnumExpr.readWith_agrees (h : Agrees withoutSpans inner inner) :
    Agrees withoutSpans (readWith inner) (readWith inner) :=
  agrees_chain
    (agrees_chain (readUnary_agrees h) fun ha hb => by simp [withoutSpans, ha, hb])
    fun ha hb => by simp [withoutSpans, ha, hb]

lemma EnumExpr.readTo_agrees (n : Nat) : Agrees withoutSpans (readTo n) (readTo n) := by
  induction n with
  | zero => exact agrees_unexpected _
  | succ n ih => exact readWith_agrees ih

lemma EnumExpr.read_agrees : Agrees withoutSpans read read := agrees_bounded readTo_agrees

end Expressions

/-! ### Attributes, modifiers and parameters -/

lemma Attribute.read_agrees : Agrees withoutSpans read read :=
  .next fun _ _ _ => (agrees_ident _).bind_id fun _ => .pure rfl

lemma Attribute.readLists_agrees (n : Nat) :
    Agrees (List.map withoutSpans) (readLists n) (readLists n) := by
  induction n with
  | zero => exact .pure rfl
  | succ n ih =>
    exact .accept ((agrees_separated _ read_agrees).bind fun here here' hhere =>
      .expect (ih.bind fun more more' hmore => .pure (by simp [hhere, hmore]))) (.pure rfl)

lemma Attribute.readAll_agrees : Agrees (List.map withoutSpans) readAll readAll :=
  agrees_bounded readLists_agrees

lemma Keyword.readModifiers_agrees : Agrees id readModifiers readModifiers :=
  agrees_keywords _

lemma ParamModifier.read_agrees : Agrees id read read :=
  .accept (.pure rfl) (.accept (.pure rfl) (.accept (.pure rfl) (.pure rfl)))

lemma Parameter.read_agrees : Agrees withoutSpans read read := by
  refine .next fun _ _ _ => Attribute.readAll_agrees.bind fun _ _ _ =>
    ParamModifier.read_agrees.bind_id fun modifier =>
      TypeExpr.read_agrees.bind fun type type' htype => (agrees_ident _).bind_id fun name =>
        .next fun t _ _ => ?_
  dsimp only
  split
  · exact .fail _ _ _
  · exact .spanFrom fun _ _ => .pure (by simp [withoutSpans, htype])

lemma Parameter.readList_agrees : Agrees (List.map withoutSpans) readList readList := by
  refine Agrees.bind_id (agrees_sees _) fun seen => ?_
  have hend : ∀ params params' : List Parameter,
      params.map withoutSpans = params'.map withoutSpans → Agrees (List.map withoutSpans)
        (do
          expect (.symbol .rightParen) "')' after parameters"
          return params : Reader (List Parameter))
        (do
          expect (.symbol .rightParen) "')' after parameters"
          return params' : Reader (List Parameter)) :=
    fun params params' h => .expect (.pure h)
  cases seen
  · exact (agrees_separated _ read_agrees).bind hend
  · exact hend _ _ rfl

/-! ### Members -/

/-- What is kept of the accessors of a property. -/
def Accessor.bothWithoutSpans (both : Option Accessor × Option Accessor) :
    Option Accessor × Option Accessor :=
  (both.1.map withoutSpans, both.2.map withoutSpans)

lemma Accessor.isSome_eq {accessor accessor' : Option Accessor}
    (h : accessor.map withoutSpans = accessor'.map withoutSpans) :
    accessor.isSome = accessor'.isSome := by
  rw [← Option.isSome_map (f := withoutSpans), h, Option.isSome_map]

lemma Accessor.readTimes_agrees (default : Visibility) (n : Nat)
    {getter getter' setter setter' : Option Accessor}
    (hgetter : getter.map withoutSpans = getter'.map withoutSpans)
    (hsetter : setter.map withoutSpans = setter'.map withoutSpans) :
    Agrees bothWithoutSpans (readTimes default getter setter n)
      (readTimes default getter' setter' n) := by
  induction n generalizing getter getter' setter setter' with
  | zero => exact .pure (by simp [bothWithoutSpans, hgetter, hsetter])
  | succ n ih =>
    refine .next fun t _ _ => ?_
    dsimp only
    split
    · exact .pure (by simp [bothWithoutSpans, hgetter, hsetter])
    · refine Keyword.readModifiers_agrees.bind_id fun modifiers => .accept ?_ (.accept ?_ ?_)
      · refine .spanFrom fun _ _ => ?_
        rw [isSome_eq hgetter]
        split
        · exact .fail _ _ _
        · exact .expect (ih rfl hsetter)
      · refine .spanFrom fun _ _ => ?_
        rw [isSome_eq hsetter]
        split
        · exact .fail _ _ _
        · exact .expect (ih hgetter rfl)
      · exact agrees_unexpected _

lemma Accessor.readBoth_agrees (default : Visibility) :
    Agrees bothWithoutSpans (readBoth default) (readBoth default) := by
  refine .next fun _ _ _ => .expect ?_
  refine (agrees_bounded fun n => readTimes_agrees default n rfl rfl).bind
    fun both both' hboth => .expect ?_
  obtain ⟨getter, setter⟩ := both
  obtain ⟨getter', setter'⟩ := both'
  obtain ⟨hgetter, hsetter⟩ := Prod.mk.inj hboth
  dsimp only
  rw [← Option.not_isSome, ← Option.not_isSome, isSome_eq hgetter, isSome_eq hsetter,
    Option.not_isSome, Option.not_isSome]
  split
  · exact .last fun _ _ => .fail _ _ _
  · exact .pure hboth

/-- What is kept of the name and the content of a member. -/
def MemberKind.namedWithoutSpans (named : String × MemberKind) : String × MemberKind :=
  (named.1, named.2.withoutSpans)

lemma Member.readTyped_agrees (visibility : Visibility) {type type' : TypeExpr}
    (h : type.withoutSpans = type'.withoutSpans) :
    Agrees MemberKind.namedWithoutSpans (readTyped visibility type)
      (readTyped visibility type') := by
  refine .next fun t _ _ => ?_
  dsimp only
  split
  · exact .fail _ _ _
  · refine (agrees_ident _).bind_id fun name => .next fun t _ _ => ?_
    cases t with
    | symbol s =>
      cases s with
      | leftParen =>
        exact .advance (Parameter.readList_agrees.bind fun params params' hparams =>
          .expect (.pure (by
            simp [MemberKind.namedWithoutSpans, MemberKind.withoutSpans, h, hparams])))
      | leftBrace =>
        refine (Accessor.readBoth_agrees visibility).bind fun both both' hboth => ?_
        obtain ⟨getter, setter⟩ := both
        obtain ⟨getter', setter'⟩ := both'
        obtain ⟨hgetter, hsetter⟩ := Prod.mk.inj hboth
        exact .pure (by
          simp [MemberKind.namedWithoutSpans, MemberKind.withoutSpans, h, hgetter, hsetter])
      | semicolon => exact .last fun _ _ => .fail _ _ _
      | assign => exact .last fun _ _ => .fail _ _ _
      | _ => exact agrees_unexpected _
    | _ => exact agrees_unexpected _

lemma Member.readConstructor_agrees :
    Agrees MemberKind.namedWithoutSpans readConstructor readConstructor :=
  (agrees_ident _).bind_id fun _ => .expect (Parameter.readList_agrees.bind
    fun params params' hparams => .expect (.pure (by
      simp [MemberKind.namedWithoutSpans, MemberKind.withoutSpans, hparams])))

/-- What is read of a member, put together. -/
lemma Member.agrees_spanFrom {visibility : Visibility} {isStatic : Bool} {start start' : Nat}
    {named named' : String × MemberKind}
    (h : MemberKind.namedWithoutSpans named = MemberKind.namedWithoutSpans named') :
    Agrees withoutSpans
      (do return ⟨named.1, named.2, visibility, isStatic, ← spanFrom start⟩)
      (do return ⟨named'.1, named'.2, visibility, isStatic, ← spanFrom start'⟩) := by
  obtain ⟨hname, hkind⟩ := Prod.mk.inj h
  exact .spanFrom fun _ _ => .pure (by simp [withoutSpans, hname, hkind])

lemma Member.read_agrees (typeName : String) :
    Agrees withoutSpans (read typeName) (read typeName) := by
  refine .next fun _ _ _ => Attribute.readAll_agrees.bind fun _ _ _ =>
    Keyword.readModifiers_agrees.bind_id fun modifiers => .next fun t _ _ => ?_
  dsimp only
  split
  iterate 5 exact .fail_bind _ _ _
  refine agrees_second.bind_id fun second => ?_
  split
  · exact readConstructor_agrees.bind fun named named' h => agrees_spanFrom h
  · exact TypeExpr.read_agrees.bind fun type type' htype =>
      (readTyped_agrees _ htype).bind fun named named' h => agrees_spanFrom h

/-! ### Declarations -/

lemma ClassBody.readBase_agrees :
    Agrees (Option.map DottedName.withoutSpans) readBase readBase := by
  refine .accept ((DottedName.read_agrees _).bind fun base base' hbase => .next fun t _ _ => ?_)
    (.pure rfl)
  dsimp only
  split
  · exact .fail _ _ _
  · exact .pure (by simp [hbase])

lemma ClassBody.read_agrees (typeName : String) :
    Agrees withoutSpans (read typeName) (read typeName) :=
  readBase_agrees.bind fun base base' hbase => .expect
    ((agrees_untilToken _ (Member.read_agrees typeName)).bind fun members members' hmembers =>
      .expect (.accept (.pure (by simp [withoutSpans, hbase, hmembers]))
        (.pure (by simp [withoutSpans, hbase, hmembers]))))

lemma EnumItem.agrees_spanFrom {name : String} {start start' : Nat}
    {value value' : Option EnumExpr}
    (h : value.map EnumExpr.withoutSpans = value'.map EnumExpr.withoutSpans) :
    Agrees withoutSpans (do return ⟨name, value, ← spanFrom start⟩)
      (do return ⟨name, value', ← spanFrom start'⟩) :=
  .spanFrom fun _ _ => .pure (by simp [withoutSpans, h])

lemma EnumItem.read_agrees : Agrees withoutSpans read read := by
  refine .next fun _ _ _ => Attribute.readAll_agrees.bind fun _ _ _ =>
    (agrees_ident _).bind_id fun name => .accept ?_ (agrees_spanFrom rfl)
  have hvalue : Agrees (Option.map EnumExpr.withoutSpans) (some <$> EnumExpr.read)
      (some <$> EnumExpr.read) := EnumExpr.read_agrees.map fun e e' he => by simp [he]
  exact hvalue.bind fun value value' h => agrees_spanFrom h

lemma EnumBody.agrees_items {underlying underlying' : Option TypeExpr}
    (h : underlying.map TypeExpr.withoutSpans = underlying'.map TypeExpr.withoutSpans) :
    Agrees withoutSpans
      (do
        expect (.symbol .leftBrace) "'\x7b' after enum name"
        let items ← listed (.symbol .rightBrace) EnumItem.read
        expect (.symbol .rightBrace) "'\x7d' after enum items"
        let _ ← accept (.symbol .semicolon)
        return ⟨underlying, items⟩)
      (do
        expect (.symbol .leftBrace) "'\x7b' after enum name"
        let items ← listed (.symbol .rightBrace) EnumItem.read
        expect (.symbol .rightBrace) "'\x7d' after enum items"
        let _ ← accept (.symbol .semicolon)
        return ⟨underlying', items⟩) :=
  .expect ((agrees_listed _ EnumItem.read_agrees).bind fun items items' hitems =>
    .expect ((agrees_accept _).bind_id fun _ => .pure (by simp [withoutSpans, h, hitems])))

lemma EnumBody.read_agrees : Agrees withoutSpans read read := by
  refine .accept ?_ (agrees_items rfl)
  have htype : Agrees (Option.map TypeExpr.withoutSpans) (some <$> TypeExpr.read)
      (some <$> TypeExpr.read) := TypeExpr.read_agrees.map fun type type' h => by simp [h]
  exact htype.bind fun underlying underlying' h => agrees_items h

/-- What is kept of the name and the body of a type. -/
def TypeBody.namedWithoutSpans (named : String × TypeBody) : String × TypeBody :=
  (named.1, named.2.withoutSpans)

lemma TypeBody.read_agrees : Agrees namedWithoutSpans read read := by
  refine .next fun t _ _ => ?_
  dsimp only
  split
  · exact .advance ((agrees_ident _).bind_id fun name => (ClassBody.read_agrees name).bind
      fun body body' h => .pure (by simp [namedWithoutSpans, withoutSpans, h]))
  · exact .advance ((agrees_ident _).bind_id fun name => (ClassBody.read_agrees name).bind
      fun body body' h => .pure (by simp [namedWithoutSpans, withoutSpans, h]))
  · exact .advance ((agrees_ident _).bind_id fun name => EnumBody.read_agrees.bind
      fun body body' h => .pure (by simp [namedWithoutSpans, withoutSpans, h]))
  · exact agrees_unexpected _

lemma TypeDecl.read_agrees : Agrees withoutSpans read read := by
  refine .next fun _ _ _ => Attribute.readAll_agrees.bind fun attributes attributes' h =>
    Keyword.readModifiers_agrees.bind_id fun modifiers =>
      TypeBody.read_agrees.bind fun named named' hnamed => .spanFrom fun _ _ => .pure ?_
  obtain ⟨hname, hbody⟩ := Prod.mk.inj hnamed
  simp only [withoutSpans, hname, hbody, h]

lemma Item.readNamespace_agrees {items : Reader (List Item)}
    (h : Agrees (List.map withoutSpans) items items) :
    Agrees withoutSpans (readNamespace items) (readNamespace items) := by
  refine .next fun _ _ _ => .expect ((DottedName.read_agrees _).bind fun path path' hpath =>
    .expect (h.bind fun items items' hitems => .expect (.spanFrom fun _ _ => .pure ?_)))
  simp only [withoutSpans, redeclare, redeclareAll_eq_map, DottedName.segments_eq hpath]
  exact congrArg (Item.inNamespace path'.segments · .nowhere) hitems

lemma Item.readWith_agrees {items : Reader (List Item)}
    (h : Agrees (List.map withoutSpans) items items) :
    Agrees (Option.map withoutSpans) (readWith items) (readWith items) := by
  refine .accept ((DottedName.read_agrees _).bind fun _ _ _ => .expect (.pure rfl)) ?_
  refine (agrees_sees _).bind_id fun seen => ?_
  cases seen
  · exact TypeDecl.read_agrees.bind fun decl decl' hdecl => .pure
      (congrArg (fun decl => some (Item.declared decl)) hdecl)
  · exact (readNamespace_agrees h).map fun item item' hitem => by simp [hitem]

lemma Item.readTo_agrees (stop : Token → Bool) (n : Nat) :
    Agrees (List.map withoutSpans) (readTo stop n) (readTo stop n) := by
  induction n generalizing stop with
  | zero => exact .pure rfl
  | succ n ih =>
    refine (agrees_untilToken stop (readWith_agrees (ih _))).bind fun items items' hitems =>
      .pure ?_
    rw [← List.reduceOption_map, hitems, List.reduceOption_map]

/-- Lists of the same tokens are read as trees that differ in spans only, or are refused for the
same fault. -/
theorem Assembly.ofLexemes_alike {ls ls' : List Lexeme}
    (h : ls.map (·.token) = ls'.map (·.token)) :
    (∃ a a', ofLexemes ls = .ok a ∧ ofLexemes ls' = .ok a' ∧ a.withoutSpans = a'.withoutSpans) ∨
    ∃ e e', ofLexemes ls = .error e ∧ ofLexemes ls' = .error e' ∧ e.fault = e'.fault := by
  have hread := agrees_bounded (Item.readTo_agrees fun _ => false) (.ofLexemes ls)
    (.ofLexemes ls') h
  unfold ofLexemes
  generalize bounded (Item.readTo fun _ => false) (.ofLexemes ls) = x,
    bounded (Item.readTo fun _ => false) (.ofLexemes ls') = y at hread
  cases hread with
  | ok hitems _ =>
    refine .inl ⟨_, _, rfl, rfl, ?_⟩
    rw [withoutSpans_mk, withoutSpans_mk, hitems]
  | error hfault => exact .inr ⟨_, _, rfl, rfl, hfault⟩

end Interop.Source
