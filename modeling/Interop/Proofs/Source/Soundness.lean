/-
# What is read has the form of the grammar

One lemma for each reader, by the rules for the steps that it takes: whatever it reads at a place is
derived from the tokens that it has moved over.  Readers that go round are bounded by a number of
rounds, and nothing here depends on it; where phrases are nested, the induction is on the depth.

Main result: `Item.readTo_soundAt`.
-/
import Interop.Proofs.Source.Reading
import Interop.Proofs.Source.Words
import Mathlib.Data.List.ReduceOption

namespace Interop.Source

open Reader

lemma DottedName.read_soundAt {what : String} (c : Cursor) :
    (read what).SoundAt c fun ts name => Derives ts name.withoutSpans := by
  refine .next (.bind .ident fun _ head c' => ?_)
  rintro ⟨⟩
  refine .accept (by simp) (fun c' => ?_) (.last fun _ => .pure (.mk (.one (.mk head))))
  refine (separated_soundAt (p := Ident) (f := id) (fun _ => .ident) (by simp) c').bind
    fun ts tail _ htail => .last fun _ => .pure (.mk ?_)
  rw [List.append_nil]
  rw [List.map_id] at htail
  exact .cons (.mk head) htail

section Types

/-- A name alone is a type, be it the word of a built-in one. -/
lemma TypeExpr.head_ofName {type : Phrase TypeExpr} {ts : List Token} {name : DottedName}
    (hname : DottedName.Derives ts name.withoutSpans) :
    Head type ts (ofName name).withoutSpans := by
  have hword {word : String} (hsegments : name.segments = [word]) : ts = [.ident word] := by
    obtain ⟨hnames⟩ := hname
    rw [hsegments] at hnames
    obtain ⟨⟨⟩⟩ | ⟨-, htail⟩ := hnames
    · rfl
    · cases htail
  obtain hstring | ⟨p, hp⟩ | hdeclared := name.builtIn_or_declared
  · rw [ofName_string hstring, hword hstring]
    exact .string
  · rw [ofName_primitive hp, hword hp]
    exact .primitive p
  · rw [ofName_declared hdeclared]
    exact .named hname hdeclared

lemma TypeExpr.readSuffix_soundAt {type : Phrase TypeExpr} {ts : List Token} {t : TypeExpr}
    (ht : Arrayed type ts t.withoutSpans) (n : Nat) (c : Cursor) :
    (readSuffix t n).SoundAt c fun us u => Arrayed type (ts ++ us) u.withoutSpans := by
  induction n generalizing c ts t with
  | zero => exact .pure (by rwa [List.append_nil])
  | succ n ih =>
    refine .accept (by simp) (fun _ => .expect (by simp) fun c' => ?_)
      (.pure (by rwa [List.append_nil]))
    refine (ih (.array ht) c').mono fun us u hu => ?_
    rwa [List.append_assoc] at hu

/-- What follows the head of a type. -/
lemma TypeExpr.readEnd_soundAt {ts : List Token} (head : TypeExpr)
    (hhead : Head Derives ts head.withoutSpans) (c : Cursor) :
    (do
      let type ← bounded (readSuffix head)
      if ← accept (.symbol .question) then return .nullable type
      else return type : Reader TypeExpr).SoundAt c
    fun us t => Derives (ts ++ us) t.withoutSpans := by
  refine (SoundAt.bounded fun n => readSuffix_soundAt (.head hhead) n c).bind
    fun us t _ ht => .accept (by simp) (fun _ => .pure ?_) (.pure ?_)
  · rw [← List.append_assoc]
    exact .nullable ht
  · rw [List.append_nil]
    exact .plain ht

lemma TypeExpr.readWith_soundAt {argument : Reader TypeExpr}
    (hargument : ∀ c, argument.SoundAt c fun ts t => Derives ts t.withoutSpans) (c : Cursor) :
    (readWith argument).SoundAt c fun ts t => Derives ts t.withoutSpans := by
  refine .accept (by simp) (fun c' => .pure_bind (readEnd_soundAt .void .void c')) ?_
  refine (DottedName.read_soundAt c).bind fun ts name c' hname =>
    .accept (by simp) (fun c' => ?_) (.pure_bind (readEnd_soundAt _ (head_ofName hname) c'))
  refine (separated_soundAt hargument (by simp) c').bind fun us args _ hargs =>
    .expect (by simp) fun c' => .pure_bind ?_
  have hhead : Head Derives (ts ++ .symbol .less :: us ++ [.symbol .greater])
      (generic name args).withoutSpans := by
    rw [withoutSpans, allWithoutSpans_eq_map]
    exact .generic hname hargs
  refine (readEnd_soundAt _ hhead c').mono fun vs t ht => ?_
  simpa using ht

lemma TypeExpr.readTo_soundAt (n : Nat) (c : Cursor) :
    (readTo n).SoundAt c fun ts t => Derives ts t.withoutSpans := by
  induction n generalizing c with
  | zero => exact .unexpected _
  | succ n ih => exact readWith_soundAt ih c

lemma TypeExpr.read_soundAt (c : Cursor) : read.SoundAt c fun ts t => Derives ts t.withoutSpans :=
  .bounded fun n => readTo_soundAt n c

end Types

section Expressions

variable {inner : Reader EnumExpr} {expr : Phrase EnumExpr}

lemma EnumExpr.readPrimary_soundAt
    (hinner : ∀ c, inner.SoundAt c fun ts e => expr ts e.withoutSpans) (c : Cursor) :
    (readPrimary inner).SoundAt c fun ts e => Primary expr ts e.withoutSpans := by
  refine .next ?_
  cases htoken : c.next.token with
  | integer value => exact .advance htoken (by simp) (.pure (.literal value))
  | ident head =>
    refine (DottedName.read_soundAt c).bind fun ts name _ hname => .pure ?_
    obtain ⟨hnames⟩ := hname
    rw [List.append_nil]
    obtain hnil | ⟨path, last, hpath⟩ := List.eq_nil_or_concat name.segments
    · rw [hnil] at hnames
      cases hnames
    · rw [hpath, List.concat_eq_append] at hnames ⊢
      rw [List.getLastD_concat, EnumExpr.withoutSpans]
      exact .item hnames
  | symbol s =>
    cases s with
    | leftParen =>
      refine .advance htoken (by simp) ((hinner _).bind fun ts e _ he => ?_)
      exact .expect (by simp) fun _ => .pure (.parens he)
    | _ => exact .fail _ _
  | _ => exact .fail _ _

lemma EnumExpr.readSigns_soundAt (n : Nat) (c : Cursor) :
    (readSigns n).SoundAt c fun ts starts =>
      ts = List.replicate starts.length (.symbol .minus) := by
  induction n generalizing c with
  | zero => exact .pure rfl
  | succ n ih =>
    refine .accept (by simp) (fun c' => .last fun _ => ?_) (.pure rfl)
    refine (ih c').bind fun ts starts _ hts => .pure ?_
    rw [hts, List.append_nil]
    rfl

/-- As many minus signs as offsets negate an expression so often. -/
lemma EnumExpr.unary_foldr {ts : List Token} {e : EnumExpr} (he : Unary expr ts e.withoutSpans)
    (starts : List Nat) :
    Unary expr (List.replicate starts.length (.symbol .minus) ++ ts)
      (starts.foldr (fun start e => .negate e ⟨start, e.span.stop⟩) e).withoutSpans := by
  induction starts with
  | nil => exact he
  | cons start starts ih => exact .negate ih

lemma EnumExpr.readUnary_soundAt
    (hinner : ∀ c, inner.SoundAt c fun ts e => expr ts e.withoutSpans) (c : Cursor) :
    (readUnary inner).SoundAt c fun ts e => Unary expr ts e.withoutSpans := by
  refine (SoundAt.bounded fun n => readSigns_soundAt n c).bind fun _ starts c' hsigns => ?_
  refine (readPrimary_soundAt hinner c').bind fun ts e _ he => .pure ?_
  rw [List.append_nil, hsigns]
  exact unary_foldr (.primary he) starts

lemma EnumExpr.readWith_soundAt
    (hinner : ∀ c, inner.SoundAt c fun ts e => Derives ts e.withoutSpans) (c : Cursor) :
    (readWith inner).SoundAt c fun ts e => Derives ts e.withoutSpans := by
  have hshift (c : Cursor) :
      (chain (.symbol .shiftLeft) (readUnary inner) .shiftLeft).SoundAt c fun ts e =>
        Chain (.symbol .shiftLeft) .shiftLeft (Unary Derives) ts e.withoutSpans :=
    chain_soundAt (readUnary_soundAt hinner) (fun _ _ => by rfl) (by simp) c
  have hor : (chain (.symbol .pipe) (chain (.symbol .shiftLeft) (readUnary inner) .shiftLeft)
      .bitOr).SoundAt c fun ts e => Chain (.symbol .pipe) .bitOr
        (Chain (.symbol .shiftLeft) .shiftLeft (Unary Derives)) ts e.withoutSpans :=
    chain_soundAt hshift (fun _ _ => by rfl) (by simp) c
  exact hor.mono fun _ _ he => .mk he

lemma EnumExpr.readTo_soundAt (n : Nat) (c : Cursor) :
    (readTo n).SoundAt c fun ts e => Derives ts e.withoutSpans := by
  induction n generalizing c with
  | zero => exact .unexpected _
  | succ n ih => exact readWith_soundAt ih c

lemma EnumExpr.read_soundAt (c : Cursor) : read.SoundAt c fun ts e => Derives ts e.withoutSpans :=
  .bounded fun n => readTo_soundAt n c

end Expressions

section Prefixes

lemma Attribute.read_soundAt (c : Cursor) :
    read.SoundAt c fun ts a => Derives ts a.withoutSpans := by
  refine .next (SoundAt.ident.bind fun _ name _ => ?_)
  rintro ⟨⟩
  exact .pure (.mk name)

lemma Attribute.Groups.cons {ts us : List Token} {here there : List Attribute}
    (hhere : Group ts here) (hthere : Groups us there) : Groups (ts ++ us) (here ++ there) := by
  obtain ⟨hgroups⟩ := hthere
  rw [← List.flatten_cons]
  exact .mk (.cons hhere hgroups)

lemma Attribute.readLists_soundAt (n : Nat) (c : Cursor) :
    (readLists n).SoundAt c fun ts as => Groups ts (as.map (·.withoutSpans)) := by
  induction n generalizing c with
  | zero => exact .pure (.mk .nil)
  | succ n ih =>
    refine .accept (by simp) (fun c' => ?_) (.pure (.mk .nil))
    refine (separated_soundAt read_soundAt (by simp) c').bind fun ts here _ hhere =>
      .expect (by simp) fun c' => (ih c').bind fun us there _ hthere => .pure ?_
    have hgroups := Groups.cons (.mk hhere) hthere
    simpa using hgroups

lemma Attribute.readAll_soundAt (c : Cursor) :
    readAll.SoundAt c fun ts as => Groups ts (as.map (·.withoutSpans)) :=
  .bounded fun n => readLists_soundAt n c

lemma Keyword.readModifiers_soundAt (c : Cursor) : readModifiers.SoundAt c Modifiers := by
  refine .bounded fun n => ?_
  induction n generalizing c with
  | zero => exact .pure .nil
  | succ n ih =>
    refine .next ?_
    split
    · rename_i k htoken
      split
      · rename_i hk
        refine .advance htoken (by simp) ((ih _).bind fun ts ks _ hks => .pure ?_)
        rw [List.append_nil]
        exact .cons (k.isModifier_iff.mp hk) hks
      · exact .pure .nil
    · exact .pure .nil

end Prefixes

section Members

lemma ParamModifier.read_soundAt (c : Cursor) : read.SoundAt c Derives := by
  refine .accept (by simp) (fun _ => .pure .outMark) ?_
  refine .accept (by simp) (fun _ => .pure .refMark) ?_
  exact .accept (by simp) (fun _ => .pure .inMark) (.pure .unmarked)

lemma Parameter.read_soundAt (c : Cursor) :
    read.SoundAt c fun ts p => Derives ts p.withoutSpans := by
  refine .next ((Attribute.readAll_soundAt _).bind fun ts _ _ hattributes => ?_)
  refine (ParamModifier.read_soundAt _).bind fun us modifier _ hmodifier => ?_
  refine (TypeExpr.read_soundAt _).bind fun vs type _ htype => ?_
  refine SoundAt.ident.bind fun _ name _ => ?_
  rintro ⟨⟩
  refine .next ?_
  split
  · exact .fail _ _
  · refine .spanFrom fun _ => .pure ?_
    have hderives := Derives.mk name hattributes hmodifier htype
    simpa [withoutSpans] using hderives

lemma Parameter.readList_soundAt (c : Cursor) :
    readList.SoundAt c fun ts params => InParens (.symbol .leftParen :: ts)
      (params.map (·.withoutSpans)) := by
  refine .sees ?_ ?_
  · exact .pure_bind (.expect (by simp) fun _ => .pure .nil)
  · refine (separated_soundAt read_soundAt (by simp) c).bind fun ts params _ hparams => ?_
    refine .expect (by simp) fun _ => .pure ?_
    exact .list hparams

/-- What is read of a property's accessors, after those of `read`: none of them twice. -/
inductive Accessor.More (default : Visibility) :
    Option Accessor → Option Accessor → Phrase (Option Accessor × Option Accessor)
  | done (g s : Option Accessor) : More default g s [] (g, s)
  | getter {ts us g s both} (hgetter : Derives default .getKw ts g)
    (hmore : More default (some g) s us both) : More default none s (ts ++ us) both
  | setter {ts us g s both} (hsetter : Derives default .setKw ts s)
    (hmore : More default g (some s) us both) : More default g none (ts ++ us) both

/-- Accessors none of which comes twice are a pair as soon as there is one. -/
lemma Accessor.More.pair {default : Visibility} {ts : List Token}
    {both : Option Accessor × Option Accessor} (h : More default none none ts both)
    (hboth : both ≠ (none, none)) : Pair default ts both := by
  obtain - | ⟨hgetter, hmore⟩ | ⟨hsetter, hmore⟩ := h
  · exact absurd rfl hboth
  · obtain - | - | ⟨hsetter, hmore⟩ := hmore
    · rw [List.append_nil]
      exact .getter hgetter
    · cases hmore
      rw [List.append_nil]
      exact .getterSetter hgetter hsetter
  · obtain - | ⟨hgetter, hmore⟩ | - := hmore
    · rw [List.append_nil]
      exact .setter hsetter
    · cases hmore
      rw [List.append_nil]
      exact .setterGetter hsetter hgetter

lemma Accessor.readTimes_soundAt {default : Visibility} (getter setter : Option Accessor)
    (n : Nat) (c : Cursor) :
    (readTimes default getter setter n).SoundAt c fun ts both =>
      More default (getter.map (·.withoutSpans)) (setter.map (·.withoutSpans)) ts
        (both.1.map (·.withoutSpans), both.2.map (·.withoutSpans)) := by
  induction n generalizing getter setter c with
  | zero => exact .pure (.done _ _)
  | succ n ih =>
    refine .next ?_
    dsimp only
    split
    · exact .pure (.done _ _)
    · refine (Keyword.readModifiers_soundAt c).bind fun ts ks _ hmodifiers => ?_
      have hderives (word : Keyword) : Derives default word
          (ts ++ [.keyword word, .symbol .semicolon])
          ⟨(Visibility.ofModifiers? ks).getD default, .nowhere⟩ :=
        .mk hmodifiers (Visibility.given_iff.mpr rfl)
      refine .accept (by simp) (fun _ => .spanFrom fun span => ?_) ?_
      · cases getter with
        | some g => exact .fail_bind
        | none =>
          refine .expect (by simp) fun c' => (ih _ _ c').mono fun us both hmore => ?_
          have := More.getter (hderives .getKw) hmore
          simpa using this
      · refine .accept (by simp) (fun _ => .spanFrom fun span => ?_) (.unexpected _)
        cases setter with
        | some s => exact .fail_bind
        | none =>
          refine .expect (by simp) fun c' => (ih _ _ c').mono fun us both hmore => ?_
          have := More.setter (hderives .setKw) hmore
          simpa using this

lemma Accessor.readBoth_soundAt {default : Visibility} (c : Cursor) :
    (readBoth default).SoundAt c fun ts both =>
      InBraces default ts (both.1.map (·.withoutSpans), both.2.map (·.withoutSpans)) := by
  refine .next (.expect (by simp) fun _ => ?_)
  refine (SoundAt.bounded fun n => readTimes_soundAt none none n _).bind fun ts both _ hmore => ?_
  obtain ⟨getter, setter⟩ := both
  refine .expect (by simp) fun _ => ?_
  split
  · exact .last fun _ => .fail _ _
  · rename_i hnone
    refine .pure (.mk (hmore.pair fun hboth => hnone ?_))
    simp_all

variable {typeName : String} {visibility : Visibility}

lemma Member.readTyped_soundAt (typeName : String) {ts : List Token} {type : TypeExpr}
    (htype : TypeExpr.Derives ts type.withoutSpans) (c : Cursor) :
    (readTyped visibility type).SoundAt c fun us m =>
      MemberKind.Derives typeName visibility (ts ++ us) (m.1, m.2.withoutSpans) := by
  refine .next ?_
  split
  · exact .fail_bind
  · refine SoundAt.ident.bind fun _ name c' => ?_
    rintro ⟨⟩
    refine .next ?_
    split
    · rename_i htoken
      refine .advance htoken (by simp) ((Parameter.readList_soundAt _).bind
        fun us params _ hparams => .expect (by simp) fun _ => .pure ?_)
      have hderives : MemberKind.Derives typeName visibility _ _ := .method name htype hparams
      simpa [MemberKind.withoutSpans] using hderives
    · refine (Accessor.readBoth_soundAt c').bind fun us both _ hboth => .pure ?_
      have hderives : MemberKind.Derives typeName visibility _ _ := .property name htype hboth
      simpa [MemberKind.withoutSpans] using hderives
    · exact .last fun _ => .fail _ _
    · exact .last fun _ => .fail _ _
    · exact .unexpected _

lemma Member.readConstructor_soundAt (visibility : Visibility) {c : Cursor}
    (hc : c.next.token = .ident typeName) :
    readConstructor.SoundAt c fun ts m =>
      MemberKind.Derives typeName visibility ts (m.1, m.2.withoutSpans) := by
  refine .ident_of_next hc (.expect (by simp) fun _ => ?_)
  refine (Parameter.readList_soundAt _).bind fun ts params _ hparams =>
    .expect (by simp) fun _ => .pure ?_
  exact .constructor hparams

lemma Member.read_soundAt (c : Cursor) :
    (read typeName).SoundAt c fun ts m => Derives typeName ts m.withoutSpans := by
  refine .next ((Attribute.readAll_soundAt _).bind fun ts _ _ hattributes => ?_)
  refine (Keyword.readModifiers_soundAt _).bind fun us ks c' hmodifiers => .next ?_
  generalize hv : (Visibility.ofModifiers? ks).getD .privateAccess = visibility
  have hvisibility := Visibility.given_iff.mpr hv
  split
  iterate 5 exact .fail_bind
  refine .second fun _ => ?_
  split
  · rename_i hcond
    have hnext : c'.next.token = .ident typeName := by simp_all
    refine (readConstructor_soundAt visibility hnext).bind fun vs m _ hkind =>
      .spanFrom fun _ => .pure ?_
    simpa [withoutSpans] using Derives.mk hattributes hmodifiers hvisibility hkind
  · refine (TypeExpr.read_soundAt _).bind fun vs type _ htype => ?_
    refine (readTyped_soundAt typeName htype _).bind fun ws m _ hkind => .spanFrom fun _ => .pure ?_
    simpa [withoutSpans] using Derives.mk hattributes hmodifiers hvisibility hkind

end Members

section Declarations

lemma ClassBody.readBase_soundAt (c : Cursor) :
    readBase.SoundAt c fun ts base =>
      Marked (.symbol .colon) DottedName.Derives ts (base.map (·.withoutSpans)) := by
  refine .accept (by simp) (fun c' => ?_) (.pure .none)
  refine (DottedName.read_soundAt c').bind fun ts base _ hbase => .next ?_
  split
  · exact .fail _ _
  · refine .pure ?_
    rw [List.append_nil]
    exact .some hbase

lemma ClassBody.read_soundAt {typeName : String} (c : Cursor) :
    (read typeName).SoundAt c fun ts body => Derives typeName ts body.withoutSpans := by
  refine (readBase_soundAt c).bind fun ts base _ hbase => .expect (by simp) fun c' => ?_
  refine (untilToken_soundAt Member.read_soundAt _ c').bind fun us members _ hmembers => ?_
  refine .expect (by simp) fun _ => .possibly (by simp) fun vs _ _ hsemicolon => .pure ?_
  simpa [withoutSpans] using Derives.mk hbase hmembers hsemicolon

lemma EnumItem.read_soundAt (c : Cursor) :
    read.SoundAt c fun ts item => Derives ts item.withoutSpans := by
  refine .next ((Attribute.readAll_soundAt _).bind fun ts _ _ hattributes => ?_)
  refine SoundAt.ident.bind fun _ name _ => ?_
  rintro ⟨⟩
  refine .accept (by simp) (fun c' => ?_) (.pure_bind (.spanFrom fun _ => .pure ?_))
  · refine (SoundAt.marked (.symbol .assign) (EnumExpr.read_soundAt c')).bind
      fun us value _ hvalue => .spanFrom fun _ => .pure ?_
    simpa [withoutSpans] using Derives.mk name hattributes hvalue
  · exact .mk name hattributes .none

/-- What follows the underlying type of an enum. -/
lemma EnumBody.readEnd_soundAt {ts : List Token} (underlying : Option TypeExpr)
    (hunderlying :
      Marked (.symbol .colon) TypeExpr.Derives ts (underlying.map (·.withoutSpans)))
    (c : Cursor) :
    (do
      expect (.symbol .leftBrace) "'\x7b' after enum name"
      let items ← listed (.symbol .rightBrace) EnumItem.read
      expect (.symbol .rightBrace) "'\x7d' after enum items"
      let _ ← accept (.symbol .semicolon)
      return ⟨underlying, items⟩ : Reader EnumBody).SoundAt c
    fun us body => Derives (ts ++ us) body.withoutSpans := by
  refine .expect (by simp) fun c' => ?_
  refine (listed_soundAt EnumItem.read_soundAt _ c').bind fun us items _ hitems => ?_
  refine .expect (by simp) fun _ => .possibly (by simp) fun vs _ _ hsemicolon => .pure ?_
  simpa [withoutSpans] using Derives.mk hunderlying hitems hsemicolon

lemma EnumBody.read_soundAt (c : Cursor) :
    read.SoundAt c fun ts body => Derives ts body.withoutSpans := by
  refine .accept (by simp) (fun c' => ?_) (.pure_bind (readEnd_soundAt none .none c))
  exact (SoundAt.marked (.symbol .colon) (TypeExpr.read_soundAt c')).bind
    fun us underlying c' hunderlying => readEnd_soundAt underlying hunderlying c'

lemma TypeBody.read_soundAt (c : Cursor) :
    read.SoundAt c fun ts b => Derives ts (b.1, b.2.withoutSpans) := by
  refine .next ?_
  split
  · rename_i htoken
    refine .advance htoken (by simp) (SoundAt.ident.bind fun _ name _ => ?_)
    rintro ⟨⟩
    refine (ClassBody.read_soundAt _).bind fun ts body _ hbody => .pure ?_
    simpa [withoutSpans] using Derives.classBody hbody
  · rename_i htoken
    refine .advance htoken (by simp) (SoundAt.ident.bind fun _ name _ => ?_)
    rintro ⟨⟩
    refine (ClassBody.read_soundAt _).bind fun ts body _ hbody => .pure ?_
    simpa [withoutSpans] using Derives.structBody hbody
  · rename_i htoken
    refine .advance htoken (by simp) (SoundAt.ident.bind fun _ name _ => ?_)
    rintro ⟨⟩
    refine (EnumBody.read_soundAt _).bind fun ts body _ hbody => .pure ?_
    simpa [withoutSpans] using Derives.enumBody hbody
  · exact .unexpected _

lemma TypeDecl.read_soundAt (c : Cursor) :
    read.SoundAt c fun ts decl => Derives ts decl.withoutSpans := by
  refine .next ((Attribute.readAll_soundAt _).bind fun ts attributes _ hattributes => ?_)
  refine (Keyword.readModifiers_soundAt _).bind fun us ks _ hmodifiers => ?_
  refine (TypeBody.read_soundAt _).bind fun vs b _ hbody => .spanFrom fun _ => .pure ?_
  have hvisibility := Visibility.given_iff.mpr
    (rfl : (Visibility.ofModifiers? ks).getD .internalAccess = _)
  simpa [withoutSpans] using Derives.mk hattributes hmodifiers hvisibility hbody

variable {items : Reader (List Item)}

lemma Item.readNamespace_soundAt
    (hitems : ∀ c, items.SoundAt c fun ts is => Assembly.Derives ts (Assembly.withoutSpans ⟨is⟩))
    (c : Cursor) :
    (readNamespace items).SoundAt c fun ts item => Derives ts (some item.withoutSpans) := by
  refine .next (.expect (by simp) fun _ => ?_)
  refine (DottedName.read_soundAt _).bind fun ts name _ hname => .expect (by simp) fun _ => ?_
  refine (hitems _).bind fun us is _ his => .expect (by simp) fun _ => .spanFrom fun _ => .pure ?_
  rw [Assembly.withoutSpans] at his
  generalize hall : Item.redeclareAll TypeDecl.withoutSpans is = all at his
  obtain ⟨his⟩ := his
  have hderives := Derives.inNamespace hname his
  simpa [withoutSpans, redeclare, hall, DottedName.withoutSpans] using hderives

lemma Item.readWith_soundAt
    (hitems : ∀ c, items.SoundAt c fun ts is => Assembly.Derives ts (Assembly.withoutSpans ⟨is⟩))
    (c : Cursor) :
    (readWith items).SoundAt c fun ts item => Derives ts (item.map (·.withoutSpans)) := by
  refine .accept (by simp) (fun c' => ?_) (.sees (.map ?_) ?_)
  · refine (DottedName.read_soundAt c').bind fun ts name _ hname => ?_
    exact .expect (by simp) fun _ => .pure (.directive hname)
  · exact readNamespace_soundAt hitems c
  · refine (TypeDecl.read_soundAt c).bind fun ts decl _ hdecl => .pure ?_
    rw [List.append_nil]
    exact .declared hdecl

/-- What is read of the items of a file or a namespace is derived from what was moved over. -/
lemma Item.readTo_soundAt (stop : Token → Bool) (n : Nat) (c : Cursor) :
    (readTo stop n).SoundAt c fun ts items =>
      Assembly.Derives ts (Assembly.withoutSpans ⟨items⟩) := by
  induction n generalizing stop c with
  | zero => exact .pure (.mk .nil)
  | succ n ih =>
    refine (untilToken_soundAt (readWith_soundAt (ih _)) stop c).bind
      fun ts items _ hitems => .pure ?_
    have hderives := Assembly.Derives.mk hitems
    rw [List.append_nil, Assembly.withoutSpans_mk]
    rwa [List.reduceOption_map] at hderives

end Declarations

end Interop.Source
