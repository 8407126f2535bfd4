/-
# The spans that are read are nested

One lemma for each reader, by the rules for the steps that it takes: what it reads stands between
the place where it starts and the one where it stops, with all its parts in order, and where it
fails, it does so in the text.  The tokens of a text are in order, and the faults of the lexer are
in the text too, so this holds of every text.

Main result: `Assembly.nested_of_ofText`.
-/
import Interop.Proofs.Except
import Interop.Proofs.Source.Lexing
import Interop.Proofs.Source.Placement
import Interop.Source.Parser
import Mathlib.Data.List.ReduceOption

namespace Interop.Source

open Reader

variable {text : Span}

/-- Phrases with spans of their own are in order if they stand in spans that are. -/
lemma nesting_of_span {α : Type} {nestedIn : α → Span → Prop} {span : α → Span}
    (hmono : ∀ {a s t}, nestedIn a s → s.Within t → nestedIn a t)
    (hinside : ∀ {a s}, nestedIn a s → (span a).Inside s) :
    Nesting nestedIn fun a b => (span a).Before (span b) :=
  ⟨hmono, fun ha hb h => .of_inside (hinside ha) (hinside hb) h⟩

lemma DottedName.read_placesAt (what : String) (c : Cursor) :
    (read what).PlacesAt text c fun name c' =>
      c.Reads text c' ∧ name.span.Inside (c.upTo c') := by
  refine .of_placed fun hc => .next (PlacesAt.ident.bind fun head c₁ _ hhead => ?_)
  refine .accept (by simp) (fun c₂ hdot => ?_)
    (.last (.pure ⟨hhead, (hhead.next_inside hc).merge hhead.last_inside⟩))
  have hnesting : Nesting (α := String) (fun _ _ => True) fun _ _ => True :=
    ⟨fun _ _ => trivial, fun _ _ _ => trivial⟩
  refine (separated_placesAt hnesting (fun _ => PlacesAt.ident.mono fun _ _ _ h => ⟨h, trivial⟩)
    (by simp) c₂).bind fun tail c₃ _ ⟨htail, _⟩ => .last (.pure ?_)
  have hall := (hhead.trans hdot).trans htail
  exact ⟨hall, (hall.next_inside hc).merge hall.last_inside⟩

section Types

namespace TypeExpr

lemma NestedIn.of_names {t u : TypeExpr} {s : Span} (ht : t.NestedIn s) (h : u.names = t.names) :
    u.NestedIn s :=
  fun name hname => ht name (h ▸ hname)

lemma nestedIn_ofName {name : DottedName} {s : Span} (h : name.span.Inside s) :
    (ofName name).NestedIn s := by
  have hnamed : (named name).NestedIn s := by
    intro n hn
    rw [List.mem_singleton.mp hn]
    exact h
  rw [ofName]
  split
  · split
    · exact nofun
    · split
      · exact nofun
      · exact hnamed
  · exact hnamed

lemma nestedIn_generic {name : DottedName} {args : List TypeExpr} {s : Span}
    (hname : name.span.Inside s) (hargs : ∀ t ∈ args, t.NestedIn s) :
    (generic name args).NestedIn s := by
  intro n hn
  rw [names, allNames_eq_flatMap] at hn
  rcases List.mem_cons.mp hn with rfl | hn
  · exact hname
  · obtain ⟨t, ht, hn⟩ := List.mem_flatMap.mp hn
    exact hargs t ht n hn

lemma nesting : Nesting NestedIn fun _ _ => True :=
  ⟨fun h hst => h.mono hst, fun _ _ _ => trivial⟩

lemma readSuffix_placesAt (t : TypeExpr) (n : Nat) (c : Cursor) :
    (readSuffix t n).PlacesAt text c fun u _ => u.names = t.names := by
  induction n generalizing c t with
  | zero => exact .pure rfl
  | succ n ih =>
    refine .accept (by simp) (fun _ _ => .expect (by simp) fun c' _ => ?_) (.pure rfl)
    exact (ih (.array t) c').mono fun u _ _ hu => hu.trans (by rw [names])

/-- What follows the head of a type holds no names. -/
lemma readEnd_placesAt (head : TypeExpr) (c : Cursor) :
    (do
      let type ← bounded (readSuffix head)
      if ← accept (.symbol .question) then return .nullable type
      else return type : Reader TypeExpr).PlacesAt text c fun t _ => t.names = head.names := by
  refine (PlacesAt.bounded fun n => readSuffix_placesAt head n c).bind
    fun t _ _ ht => .accept (by simp) (fun _ _ => .pure ?_) (.pure ht)
  rw [names]
  exact ht

lemma readWith_placesAt {argument : Reader TypeExpr}
    (hargument : ∀ c, argument.PlacesAt text c fun t c' =>
      c.Reads text c' ∧ t.NestedIn (c.upTo c')) (c : Cursor) :
    (readWith argument).PlacesAt text c fun t c' =>
      c.Reads text c' ∧ t.NestedIn (c.upTo c') := by
  refine .accept (by simp) (fun c₁ hvoid => .pure_bind ((readEnd_placesAt .void c₁).mono ?_)) ?_
  · intro t c₂ hmoves hnames
    refine ⟨hvoid.moves hmoves, NestedIn.of_names ?_ hnames⟩
    exact nofun
  refine (DottedName.read_placesAt _ c).bind fun name c₁ _ ⟨hname, hspan⟩ =>
    .accept (by simp) (fun c₂ hless => ?_) (.pure_bind ((readEnd_placesAt _ c₁).mono ?_))
  · refine (separated_placesAt nesting hargument (by simp) c₂).bind
      fun args c₃ _ ⟨hargs, hnested⟩ => .expect (by simp) fun c₄ hgreater =>
        .pure_bind ((readEnd_placesAt _ c₄).mono ?_)
    intro t c₅ hmoves hnames
    have hrest := (hgreater.moves hmoves).toMoves
    refine ⟨((hname.trans hless).trans hargs).moves hrest, NestedIn.of_names ?_ hnames⟩
    refine nestedIn_generic (hspan.mono ?_) fun u hu => (hnested.nested u hu).mono ?_
    · exact Cursor.upTo_within_left ((hless.trans hargs).toMoves.trans hrest)
    · exact Cursor.upTo_within (hname.trans hless).toMoves hrest
  · intro t c₂ hmoves hnames
    refine ⟨hname.moves hmoves, NestedIn.of_names ?_ hnames⟩
    exact nestedIn_ofName (hspan.mono (Cursor.upTo_within_left hmoves))

lemma readTo_placesAt (n : Nat) (c : Cursor) :
    (readTo n).PlacesAt text c fun t c' => c.Reads text c' ∧ t.NestedIn (c.upTo c') := by
  induction n generalizing c with
  | zero => exact .unexpected _
  | succ n ih => exact readWith_placesAt ih c

lemma read_placesAt (c : Cursor) :
    read.PlacesAt text c fun t c' => c.Reads text c' ∧ t.NestedIn (c.upTo c') :=
  .bounded fun n => readTo_placesAt n c

end TypeExpr

end Types

section Expressions

namespace EnumExpr

variable {inner : Reader EnumExpr}

lemma readPrimary_placesAt (hinner : ∀ c, inner.PlacesAt text c fun e c' =>
      c.Reads text c' ∧ e.NestedIn (c.upTo c')) (c : Cursor) :
    (readPrimary inner).PlacesAt text c fun e c' =>
      c.Reads text c' ∧ e.NestedIn (c.upTo c') := by
  refine .of_placed fun hc => .next ?_
  have hfail : c.Placed text → c.next.span.Inside text := fun hc => hc.next_inside
  cases htoken : c.next.token with
  | integer value =>
    exact .advance (by simp [htoken]) fun c₁ hreads => .pure ⟨hreads, hreads.next_inside hc⟩
  | ident head =>
    exact (DottedName.read_placesAt _ c).bind fun name c₁ _ h => .pure h
  | symbol s =>
    cases s with
    | leftParen =>
      refine .advance (by simp [htoken]) fun c₁ hopen => (hinner c₁).bind
        fun e c₂ _ ⟨he, hnested⟩ => .expect (by simp) fun c₃ hclose => .pure ⟨?_, ?_⟩
      · exact (hopen.trans he).trans hclose
      · exact hnested.mono (Cursor.upTo_within hopen.toMoves hclose.toMoves)
    | _ => exact .fail hfail
  | _ => exact .fail hfail

/-- Each minus sign stands before what it negates. -/
lemma readSigns_placesAt (n : Nat) (c : Cursor) :
    (readSigns n).PlacesAt text c fun starts c' => ∀ (e : EnumExpr) (stop : Nat),
      e.NestedIn ⟨c'.next.span.start, stop⟩ →
      (starts.foldr (fun start e => .negate e ⟨start, e.span.stop⟩) e).NestedIn
        ⟨c.next.span.start, stop⟩ := by
  induction n generalizing c with
  | zero => exact .pure fun _ _ h => h
  | succ n ih =>
    refine .accept (by simp) (fun c₁ hminus => .last ?_) (.pure fun _ _ h => h)
    refine (ih c₁).bind fun starts c₂ _ hstarts => .pure fun e stop he => ?_
    have hoperand := hstarts e stop he
    rw [List.foldr_cons]
    generalize starts.foldr _ e = operand at hoperand ⊢
    obtain ⟨hspan, hown⟩ := nestedIn_iff.mp hoperand
    have hstart : c₁.last.start ≤ operand.span.start :=
      Nat.le_trans hminus.placed.last.ordered (Nat.le_trans hminus.behind hspan.within.1)
    refine ⟨⟨?_, hminus.read.start, hspan.within.2⟩, hown.mono ⟨hstart, Nat.le_refl _⟩⟩
    exact Nat.le_trans hstart hspan.ordered

lemma readUnary_placesAt (hinner : ∀ c, inner.PlacesAt text c fun e c' =>
      c.Reads text c' ∧ e.NestedIn (c.upTo c')) (c : Cursor) :
    (readUnary inner).PlacesAt text c fun e c' =>
      c.Reads text c' ∧ e.NestedIn (c.upTo c') := by
  refine (PlacesAt.bounded fun n => readSigns_placesAt n c).bind fun starts c₁ hsigns hnegate => ?_
  refine (readPrimary_placesAt hinner c₁).bind fun e c₂ _ ⟨hreads, hnested⟩ => .pure ⟨?_, ?_⟩
  · exact hsigns.reads hreads
  · exact hnegate e _ hnested

lemma readWith_placesAt (hinner : ∀ c, inner.PlacesAt text c fun e c' =>
      c.Reads text c' ∧ e.NestedIn (c.upTo c')) (c : Cursor) :
    (readWith inner).PlacesAt text c fun e c' =>
      c.Reads text c' ∧ e.NestedIn (c.upTo c') := by
  have hmono : ∀ (e : EnumExpr) s t, e.NestedIn s → s.Within t → e.NestedIn t :=
    fun _ _ _ h hst => h.mono hst
  refine chain_placesAt hmono (fun _ _ _ => nestedIn_merge) ?_ (by simp) c
  exact chain_placesAt hmono (fun _ _ _ => nestedIn_merge) (readUnary_placesAt hinner) (by simp)

lemma readTo_placesAt (n : Nat) (c : Cursor) :
    (readTo n).PlacesAt text c fun e c' => c.Reads text c' ∧ e.NestedIn (c.upTo c') := by
  induction n generalizing c with
  | zero => exact .unexpected _
  | succ n ih => exact readWith_placesAt ih c

lemma read_placesAt (c : Cursor) :
    read.PlacesAt text c fun e c' => c.Reads text c' ∧ e.NestedIn (c.upTo c') :=
  .bounded fun n => readTo_placesAt n c

end EnumExpr

end Expressions

section Prefixes

lemma Attribute.nesting :
    Nesting (fun (a : Attribute) outer => a.span.Inside outer) fun a a' => a.span.Before a'.span :=
  nesting_of_span (fun h hst => h.mono hst) id

lemma Attribute.read_placesAt (c : Cursor) :
    read.PlacesAt text c fun a c' => c.Reads text c' ∧ a.span.Inside (c.upTo c') :=
  .of_placed fun hc => .next <| PlacesAt.ident.bind fun _ _ _ hreads =>
    .pure ⟨hreads, hreads.next_inside hc⟩

lemma Attribute.readLists_placesAt (n : Nat) (c : Cursor) :
    (readLists n).PlacesAt text c fun as c' => AllInside as (c.upTo c') := by
  induction n generalizing c with
  | zero => exact .pure (siblings_nil _)
  | succ n ih =>
    refine .accept (by simp) (fun c₁ hopen => ?_) (.pure (siblings_nil _))
    refine (separated_placesAt nesting read_placesAt (by simp) c₁).bind
      fun here c₂ _ ⟨hreads, hhere⟩ => .expect (by simp) fun c₃ hclose =>
        (ih c₃).bind fun there c₄ hmoves hthere => .pure ?_
    have hall := nesting.append hhere hreads hclose.toMoves hthere hmoves
    exact hall.mono fun _ ha => ha.mono (Cursor.upTo_within_right hopen.toMoves)

lemma Attribute.readAll_placesAt (c : Cursor) :
    readAll.PlacesAt text c fun as c' => AllInside as (c.upTo c') :=
  .bounded fun n => readLists_placesAt n c

lemma Keyword.readModifiers_placesAt (c : Cursor) :
    readModifiers.PlacesAt text c fun _ _ => True :=
  keywords_placesAt _ c

end Prefixes

section Members

lemma ParamModifier.read_placesAt (c : Cursor) : read.PlacesAt text c fun _ _ => True := by
  refine .accept (by simp) (fun _ _ => .pure trivial) ?_
  refine .accept (by simp) (fun _ _ => .pure trivial) ?_
  exact .accept (by simp) (fun _ _ => .pure trivial) (.pure trivial)

lemma Parameter.nesting : Nesting Parameter.NestedIn fun p q => p.span.Before q.span :=
  nesting_of_span (fun h hst => h.mono hst) fun h => h.span

lemma Parameter.read_placesAt (c : Cursor) :
    read.PlacesAt text c fun p c' => c.Reads text c' ∧ p.NestedIn (c.upTo c') := by
  refine .of_placed fun hc => .next ?_
  refine (Attribute.readAll_placesAt c).bind fun _ c₁ hattributes _ => ?_
  refine (ParamModifier.read_placesAt c₁).bind fun modifier c₂ hmodifier _ => ?_
  refine (TypeExpr.read_placesAt c₂).bind fun type c₃ _ ⟨htype, hnested⟩ => ?_
  refine PlacesAt.ident.bind fun name c₄ _ hname => .next ?_
  split
  · exact .fail fun h => h.next_inside
  · have hbefore := hattributes.trans hmodifier
    have hall := (hbefore.reads htype).trans hname
    refine .spanFrom (.pure ⟨hall, (hall.inside hc).self, hnested.mono ?_⟩)
    exact Cursor.upTo_within hbefore hname.toMoves

lemma Parameter.readList_placesAt (c : Cursor) :
    readList.PlacesAt text c fun params c' =>
      c.Reads text c' ∧ AllNestedIn params (c.upTo c') := by
  refine .sees ?_ ?_
  · exact .pure_bind (.expect (by simp) fun c₁ hclose => .pure ⟨hclose, siblings_nil _⟩)
  · refine (separated_placesAt nesting read_placesAt (by simp) c).bind
      fun params c₁ _ ⟨hreads, hparams⟩ => .expect (by simp) fun c₂ hclose => .pure ⟨?_, ?_⟩
    · exact hreads.trans hclose
    · exact AllNestedIn.mono hparams (Cursor.upTo_within_left hclose.toMoves)

/-- The accessors that are read, and those read before since a place. -/
lemma Accessor.readTimes_placesAt {default : Visibility} {start : Cursor}
    (getter setter : Option Accessor) (n : Nat) (c : Cursor) (hstart : start.Moves text c)
    (hgetter : ∀ a ∈ getter, a.span.Inside (start.upTo c))
    (hsetter : ∀ a ∈ setter, a.span.Inside (start.upTo c)) :
    (readTimes default getter setter n).PlacesAt text c fun both c' =>
      (∀ a ∈ both.1, a.span.Inside (start.upTo c')) ∧
        ∀ a ∈ both.2, a.span.Inside (start.upTo c') := by
  induction n generalizing getter setter c with
  | zero => exact .pure ⟨hgetter, hsetter⟩
  | succ n ih =>
    have hc := hstart.placed
    refine .next ?_
    dsimp only
    split
    · exact .pure ⟨hgetter, hsetter⟩
    · refine (Keyword.readModifiers_placesAt c).bind fun ks c₁ hmodifiers _ => ?_
      -- an accessor that ends behind `c₂`, and the semicolon behind it
      have hread : ∀ {c₂ c₃ : Cursor}, c₁.Reads text c₂ → c₂.Reads text c₃ →
          start.Moves text c₃ ∧ (c.upTo c₂).Inside (start.upTo c₃) ∧
            (start.upTo c).Within (start.upTo c₃) := by
        intro c₂ c₃ hword hsemicolon
        have haccessor := hmodifiers.reads hword
        have hall := (haccessor.trans hsemicolon).toMoves
        refine ⟨hstart.trans hall, (haccessor.inside hc).self.mono ?_, ?_⟩
        · exact Cursor.upTo_within hstart hsemicolon.toMoves
        · exact Cursor.upTo_within_left hall
      refine .accept (by simp) (fun c₂ hget => .spanFrom ?_) ?_
      · cases getter with
        | some g => exact .fail_bind fun _ => (hmodifiers.reads hget).inside hc
        | none =>
          refine .expect (by simp) fun c₃ hsemicolon => ?_
          obtain ⟨hmoves, hspan, hwithin⟩ := hread hget hsemicolon
          refine ih _ _ c₃ hmoves ?_ fun a ha => (hsetter a ha).mono hwithin
          rintro _ ⟨⟩
          exact hspan
      · refine .accept (by simp) (fun c₂ hset => .spanFrom ?_) (.unexpected _)
        cases setter with
        | some s => exact .fail_bind fun _ => (hmodifiers.reads hset).inside hc
        | none =>
          refine .expect (by simp) fun c₃ hsemicolon => ?_
          obtain ⟨hmoves, hspan, hwithin⟩ := hread hset hsemicolon
          refine ih _ _ c₃ hmoves (fun a ha => (hgetter a ha).mono hwithin) ?_
          rintro _ ⟨⟩
          exact hspan

lemma Accessor.readBoth_placesAt {default : Visibility} (c : Cursor) :
    (readBoth default).PlacesAt text c fun both c' => c.Reads text c' ∧
      (∀ a ∈ both.1, a.span.Inside (c.upTo c')) ∧ ∀ a ∈ both.2, a.span.Inside (c.upTo c') := by
  refine .of_placed fun hc => .next (.expect (by simp) fun c₁ hopen => ?_)
  refine (PlacesAt.bounded fun n => readTimes_placesAt none none n c₁ hopen.placed.refl nofun
    nofun).bind fun both c₂ hboth ⟨hgetter, hsetter⟩ => ?_
  obtain ⟨getter, setter⟩ := both
  refine .expect (by simp) fun c₃ hclose => ?_
  split
  · exact .last (.fail fun h => hc.next_inside.merge h.last)
  · have hwithin : (c₁.upTo c₂).Within (c.upTo c₃) :=
      Cursor.upTo_within hopen.toMoves hclose.toMoves
    refine .pure ⟨(hopen.moves hboth).trans hclose, ?_, ?_⟩
    · exact fun a ha => (hgetter a ha).mono hwithin
    · exact fun a ha => (hsetter a ha).mono hwithin

/-- What follows a type that was read since a place. -/
lemma Member.readTyped_placesAt {visibility : Visibility} {type : TypeExpr} {start c : Cursor}
    (hstart : start.Reads text c) (htype : type.NestedIn (start.upTo c)) :
    (readTyped visibility type).PlacesAt text c fun m c' =>
      start.Reads text c' ∧ m.2.NestedIn (start.upTo c') := by
  refine .next ?_
  split
  · exact .fail_bind fun h => h.next_inside
  · refine PlacesAt.ident.bind fun name c₁ _ hname => .next ?_
    split
    · rename_i htoken
      refine .advance (by simp [htoken]) fun c₂ hopen => ?_
      refine (Parameter.readList_placesAt c₂).bind fun params c₃ _ ⟨hreads, hparams⟩ =>
        .expect (by simp) fun c₄ hsemicolon => ?_
      have hopened := hname.trans hopen
      have hall := (hopened.trans hreads).trans hsemicolon
      refine .pure ⟨hstart.trans hall, ?_, htype.mono (Cursor.upTo_within_left hall.toMoves)⟩
      exact Parameter.AllNestedIn.mono hparams
        (Cursor.upTo_within (hstart.trans hopened).toMoves hsemicolon.toMoves)
    · refine (Accessor.readBoth_placesAt c₁).bind fun both c₂ _ ⟨hreads, hgetter, hsetter⟩ => ?_
      have hwithin : (c₁.upTo c₂).Within (start.upTo c₂) :=
        Cursor.upTo_within_right (hstart.trans hname).toMoves
      refine .pure ⟨hstart.trans (hname.trans hreads), htype.mono ?_, ?_, ?_⟩
      · exact Cursor.upTo_within_left (hname.trans hreads).toMoves
      · exact fun a ha => (hgetter a ha).mono hwithin
      · exact fun a ha => (hsetter a ha).mono hwithin
    · exact .last (.fail fun h => h.last)
    · exact .last (.fail fun h => h.last)
    · exact .unexpected _

lemma Member.readConstructor_placesAt (c : Cursor) :
    readConstructor.PlacesAt text c fun m c' =>
      c.Reads text c' ∧ m.2.NestedIn (c.upTo c') := by
  refine PlacesAt.ident.bind fun name c₁ _ hname => .expect (by simp) fun c₂ hopen => ?_
  refine (Parameter.readList_placesAt c₂).bind fun params c₃ _ ⟨hreads, hparams⟩ =>
    .expect (by simp) fun c₄ hsemicolon => .pure ⟨?_, ?_⟩
  · exact ((hname.trans hopen).trans hreads).trans hsemicolon
  · exact Parameter.AllNestedIn.mono hparams
      (Cursor.upTo_within (hname.trans hopen).toMoves hsemicolon.toMoves)

lemma Member.nesting : Nesting Member.NestedIn fun m m' => m.span.Before m'.span :=
  nesting_of_span (fun h hst => h.mono hst) fun h => h.span

lemma Member.read_placesAt (typeName : String) (c : Cursor) :
    (read typeName).PlacesAt text c fun m c' => c.Reads text c' ∧ m.NestedIn (c.upTo c') := by
  refine .of_placed fun hc => .next ?_
  refine (Attribute.readAll_placesAt c).bind fun _ c₁ hattributes _ => ?_
  refine (Keyword.readModifiers_placesAt c₁).bind fun ks c₂ hmodifiers _ => .next ?_
  have hbefore := hattributes.trans hmodifiers
  -- what is left of a member is read from `c₂` on
  have hmember : ∀ {c₃ : Cursor} {kind : MemberKind}, c₂.Reads text c₃ →
      kind.NestedIn (c₂.upTo c₃) →
      c.Reads text c₃ ∧ (c.upTo c₃).Inside (c.upTo c₃) ∧ kind.NestedIn (c.upTo c₃) := by
    intro c₃ kind hreads hkind
    have hall := hbefore.reads hreads
    exact ⟨hall, (hall.inside hc).self, hkind.mono (Cursor.upTo_within_right hbefore)⟩
  split
  iterate 5 exact .fail_bind fun h => h.next_inside
  refine .second fun _ => ?_
  split
  · refine (readConstructor_placesAt c₂).bind fun m c₃ _ ⟨hreads, hkind⟩ =>
      .spanFrom (.pure ?_)
    obtain ⟨hall, hspan, hnested⟩ := hmember hreads hkind
    exact ⟨hall, hspan, hnested⟩
  · refine (TypeExpr.read_placesAt c₂).bind fun type c₃ _ ⟨htype, hnested⟩ => ?_
    refine (readTyped_placesAt htype hnested).bind fun m c₄ _ ⟨hreads, hkind⟩ =>
      .spanFrom (.pure ?_)
    obtain ⟨hall, hspan, hnested⟩ := hmember hreads hkind
    exact ⟨hall, hspan, hnested⟩

end Members

section Declarations

lemma ClassBody.readBase_placesAt (c : Cursor) :
    readBase.PlacesAt text c fun base c' => ∀ name ∈ base, name.span.Inside (c.upTo c') := by
  refine .accept (by simp) (fun c₁ hcolon => ?_) (.pure nofun)
  refine (DottedName.read_placesAt _ c₁).bind fun base c₂ _ ⟨_, hspan⟩ => .next ?_
  split
  · exact .fail fun h => h.next_inside
  · refine .pure ?_
    rintro _ ⟨⟩
    exact hspan.mono (Cursor.upTo_within_right hcolon.toMoves)

lemma ClassBody.read_placesAt (typeName : String) (c : Cursor) :
    (read typeName).PlacesAt text c fun body c' =>
      c.Reads text c' ∧ body.NestedIn (c.upTo c') := by
  refine (readBase_placesAt c).bind fun base c₁ hbase hspan => .expect (by simp) fun c₂ hopen => ?_
  refine (untilToken_placesAt Member.nesting (Member.read_placesAt typeName) _ c₂).bind
    fun members c₃ hmembers hnested => .expect (by simp) fun c₄ hclose =>
      .possibly (by simp) fun _ c₅ hsemicolon => ?_
  have hend := hclose.toMoves.trans hsemicolon
  have hrest := hopen.moves (hmembers.trans hend)
  refine .pure ⟨hbase.reads hrest, fun name hname => (hspan name hname).mono ?_,
    hnested.mono fun _ hm => hm.mono ?_⟩
  · exact Cursor.upTo_within_left hrest.toMoves
  · exact Cursor.upTo_within (hbase.reads hopen).toMoves hend

lemma EnumItem.nesting : Nesting EnumItem.NestedIn fun i i' => i.span.Before i'.span :=
  nesting_of_span (fun h hst => h.mono hst) fun h => h.span

lemma EnumItem.read_placesAt (c : Cursor) :
    read.PlacesAt text c fun item c' => c.Reads text c' ∧ item.NestedIn (c.upTo c') := by
  refine .of_placed fun hc => .next ?_
  refine (Attribute.readAll_placesAt c).bind fun _ c₁ hattributes _ => ?_
  refine PlacesAt.ident.bind fun name c₂ _ hname => ?_
  have hbefore := hattributes.reads hname
  refine .accept (by simp) (fun c₃ hassign => ?_) (.pure_bind (.spanFrom (.pure ?_)))
  · refine (PlacesAt.some (EnumExpr.read_placesAt c₃)).bind
      fun value c₄ _ ⟨hvalue, hnested⟩ => .spanFrom (.pure ?_)
    have hall := (hbefore.trans hassign).trans hvalue
    refine ⟨hall, (hall.inside hc).self, fun e he => (hnested e he).mono ?_⟩
    exact Cursor.upTo_within_right (hbefore.trans hassign).toMoves
  · exact ⟨hbefore, (hbefore.inside hc).self, nofun⟩

/-- What follows the underlying type of an enum, which was read since a place. -/
lemma EnumBody.readEnd_placesAt (underlying : Option TypeExpr) {start c : Cursor}
    (hstart : start.Moves text c) (hunderlying : ∀ t ∈ underlying, t.NestedIn (start.upTo c)) :
    (do
      expect (.symbol .leftBrace) "'\x7b' after enum name"
      let items ← listed (.symbol .rightBrace) EnumItem.read
      expect (.symbol .rightBrace) "'\x7d' after enum items"
      let _ ← accept (.symbol .semicolon)
      return ⟨underlying, items⟩ : Reader EnumBody).PlacesAt text c fun body c' =>
        start.Reads text c' ∧ body.NestedIn (start.upTo c') := by
  refine .expect (by simp) fun c₁ hopen => ?_
  refine (listed_placesAt EnumItem.nesting EnumItem.read_placesAt _ c₁).bind
    fun items c₂ hitems hnested => .expect (by simp) fun c₃ hclose =>
      .possibly (by simp) fun _ c₄ hsemicolon => ?_
  have hend := hclose.toMoves.trans hsemicolon
  have hrest := hopen.moves (hitems.trans hend)
  refine .pure ⟨hstart.reads hrest, fun t ht => (hunderlying t ht).mono ?_,
    hnested.mono fun _ hi => hi.mono ?_⟩
  · exact Cursor.upTo_within_left hrest.toMoves
  · exact Cursor.upTo_within (hstart.reads hopen).toMoves hend

lemma EnumBody.read_placesAt (c : Cursor) :
    read.PlacesAt text c fun body c' => c.Reads text c' ∧ body.NestedIn (c.upTo c') := by
  refine .of_placed fun hc => .accept (by simp) (fun c₁ hcolon => ?_)
    (.pure_bind (readEnd_placesAt none hc.refl nofun))
  refine (PlacesAt.some (TypeExpr.read_placesAt c₁)).bind
    fun underlying c₂ _ ⟨hreads, hnested⟩ => readEnd_placesAt underlying
      (hcolon.trans hreads).toMoves fun t ht => (hnested t ht).mono ?_
  exact Cursor.upTo_within_right hcolon.toMoves

/-- The body of a type behind the word for its kind and its name. -/
lemma TypeBody.named_placesAt {α : Type} {what : String} {body : String → Reader α}
    {make : α → TypeBody} {c : Cursor} (hword : c.next.token ≠ .endOfFile)
    (hbody : ∀ name c, (body name).PlacesAt text c fun b c' =>
      c.Reads text c' ∧ (make b).NestedIn (c.upTo c')) :
    (do
      advance
      let name ← ident what
      return (name, make (← body name)) : Reader (String × TypeBody)).PlacesAt text c fun b c' =>
        c.Reads text c' ∧ b.2.NestedIn (c.upTo c') := by
  refine .advance hword fun c₁ hword => PlacesAt.ident.bind fun name c₂ _ hname => ?_
  refine (hbody name c₂).bind fun b c₃ _ ⟨hreads, hnested⟩ => .pure ?_
  have hbefore := hword.trans hname
  exact ⟨hbefore.trans hreads, hnested.mono (Cursor.upTo_within_right hbefore.toMoves)⟩

lemma TypeBody.read_placesAt (c : Cursor) :
    read.PlacesAt text c fun b c' => c.Reads text c' ∧ b.2.NestedIn (c.upTo c') := by
  refine .next ?_
  split
  · rename_i htoken
    exact named_placesAt (by simp [htoken]) ClassBody.read_placesAt
  · rename_i htoken
    exact named_placesAt (by simp [htoken]) ClassBody.read_placesAt
  · rename_i htoken
    exact named_placesAt (by simp [htoken]) fun _ => EnumBody.read_placesAt
  · exact .unexpected _

lemma TypeDecl.read_placesAt (c : Cursor) :
    read.PlacesAt text c fun decl c' => c.Reads text c' ∧ decl.NestedIn (c.upTo c') := by
  refine .of_placed fun hc => .next ?_
  refine (Attribute.readAll_placesAt c).bind fun attributes c₁ hattributes hinside => ?_
  refine (Keyword.readModifiers_placesAt c₁).bind fun ks c₂ hmodifiers _ => ?_
  refine (TypeBody.read_placesAt c₂).bind fun b c₃ _ ⟨hreads, hnested⟩ => .spanFrom (.pure ?_)
  have hbefore := hattributes.trans hmodifiers
  have hall := hbefore.reads hreads
  refine ⟨hall, (hall.inside hc).self, hinside.mono ?_, hnested.mono ?_⟩
  · exact Cursor.upTo_within_left (hmodifiers.reads hreads).toMoves
  · exact Cursor.upTo_within_right hbefore

/-- An item, if there is one, stands within a span. -/
def Item.PossiblyIn (item? : Option Item) (outer : Span) : Prop :=
  ∀ i ∈ item?, i.NestedIn outer

lemma Item.nesting :
    Nesting Item.PossiblyIn fun i? j? => ∀ i, i? = some i → ∀ j, j? = some j → i.Before j := by
  refine ⟨fun h hst i hi => (h i hi).mono hst, fun hi hj hst => ?_⟩
  rintro i rfl j rfl
  exact .of_inside (hi i rfl).inside (hj j rfl).inside hst

variable {items : Reader (List Item)}

lemma Item.readNamespace_placesAt (hitems : ∀ c, items.PlacesAt text c fun is c' =>
      Siblings Item.NestedIn Item.Before is (c.upTo c')) (c : Cursor) :
    (readNamespace items).PlacesAt text c fun item c' =>
      c.Reads text c' ∧ item.NestedIn (c.upTo c') := by
  refine .of_placed fun hc => .next (.expect (by simp) fun c₁ hword => ?_)
  refine (DottedName.read_placesAt _ c₁).bind fun name c₂ _ ⟨hname, _⟩ =>
    .expect (by simp) fun c₃ hopen => ?_
  refine (hitems c₃).bind fun is c₄ hmoves his => .expect (by simp) fun c₅ hclose =>
    .spanFrom (.pure ?_)
  have hbefore := (hword.trans hname).trans hopen
  have hall := (hbefore.moves hmoves).trans hclose
  have hwithin : (c₃.upTo c₄).Within (c.upTo c₅) :=
    Cursor.upTo_within hbefore.toMoves hclose.toMoves
  exact ⟨hall, .inNamespace (hall.inside hc).self
    (fun i hi => (his.nested i hi).mono hwithin) his.inOrder⟩

lemma Item.readWith_placesAt (hitems : ∀ c, items.PlacesAt text c fun is c' =>
      Siblings Item.NestedIn Item.Before is (c.upTo c')) (c : Cursor) :
    (readWith items).PlacesAt text c fun item? c' =>
      c.Reads text c' ∧ PossiblyIn item? (c.upTo c') := by
  refine .accept (by simp) (fun c₁ husing => ?_) (.sees ?_ ?_)
  · refine (DottedName.read_placesAt _ c₁).bind fun name c₂ _ ⟨hname, _⟩ => ?_
    refine .expect (by simp) fun c₃ hsemicolon => .pure ⟨?_, nofun⟩
    exact (husing.trans hname).trans hsemicolon
  · exact .some (readNamespace_placesAt hitems c)
  · refine (TypeDecl.read_placesAt c).bind fun decl c₁ _ ⟨hreads, hnested⟩ => .pure ⟨hreads, ?_⟩
    rintro _ ⟨⟩
    exact .declared hnested

/-- The items of a file or a namespace, at any depth, are nested where they are read. -/
lemma Item.readTo_placesAt (stop : Token → Bool) (n : Nat) (c : Cursor) :
    (readTo stop n).PlacesAt text c fun items c' =>
      Siblings Item.NestedIn Item.Before items (c.upTo c') := by
  induction n generalizing stop c with
  | zero => exact .pure (siblings_nil _)
  | succ n ih =>
    refine (untilToken_placesAt nesting (readWith_placesAt (ih _)) stop c).bind
      fun items c' _ hitems => .pure ⟨fun i hi => ?_, ?_⟩
    · exact hitems.nested (some i) (List.reduceOption_mem_iff.mp hi) i rfl
    · exact List.pairwise_filterMap.mpr hitems.inOrder

end Declarations

/-! ### Texts -/

lemma Cut.length_text_add {s : List Char} (cut : Cut s) :
    cut.text.length + cut.rest.length = s.length := by
  rw [← List.length_append, cut.text_append_rest]

lemma Cut.length_text_le {s : List Char} (cut : Cut s) : cut.text.length ≤ s.length :=
  Nat.le.intro cut.length_text_add

/-- The characters that show a fault are there. -/
lemma cutNumber_fault {c : Char} {cs : List Char} {fault : SyntaxFault} {n : Nat}
    (h : cutNumber c cs = .error (fault, n)) : n ≤ (c :: cs).length := by
  rw [cutNumber] at h
  split at h
  · cases h
    exact Cut.length_text_le _
  · split at h
    · cases h
      exact Cut.length_text_le _
    · split at h
      · cases h
      · cases h
        exact Cut.length_text_le _

lemma cutToken_fault {c : Char} {cs : List Char} {fault : SyntaxFault} {n : Nat}
    (h : cutToken c cs = .error (fault, n)) : n ≤ (c :: cs).length := by
  rw [cutToken] at h
  split at h
  · cases h
  · split at h
    · split at h <;> cases h
    · split at h
      · exact cutNumber_fault h
      · split at h
        · cases h
        · cases h
          simp

lemma Piece.cut_fault {c : Char} {cs : List Char} {fault : SyntaxFault} {n : Nat}
    (h : Piece.cut c cs = .error (fault, n)) : n ≤ (c :: cs).length := by
  rw [Piece.cut] at h
  split at h
  · cases h
  · split at h
    · cases h
    · split at h
      · split at h
        · cases h
        · cases h
          simp
      · exact cutToken_fault (eq_error_of_map h)

/-- Where the lexer fails, it does so in the text. -/
lemma Lexeme.ofCharsAt_fault {start : Nat} {s : List Char} {e : SyntaxError}
    (h : ofCharsAt start s = .error e) : e.span.Inside ⟨start, start + s.length⟩ := by
  have hrest {start : Nat} {s : List Char} (cut : Cut s) :
      Span.Within ⟨start + cut.text.length, start + cut.text.length + cut.rest.length⟩
        ⟨start, start + s.length⟩ := by
    rw [Nat.add_assoc, cut.length_text_add]
    exact ⟨Nat.le_add_right _ _, Nat.le_refl _⟩
  induction start, s using ofCharsAt.induct with
  | case1 start =>
    rw [ofCharsAt] at h
    cases h
  | case2 start c cs fault n hcut =>
    rw [ofCharsAt] at h
    simp only [hcut] at h
    cases h
    exact ⟨Nat.le_add_right _ _, Nat.le_refl _, Nat.add_le_add_left (Piece.cut_fault hcut) _⟩
  | case3 start c cs cut hlt stop hcut ih =>
    rw [ofCharsAt] at h
    simp only [hcut] at h
    exact (ih h).mono (hrest cut)
  | case4 start c cs cut hlt stop t hcut ih =>
    rw [ofCharsAt] at h
    simp only [hcut] at h
    exact (ih (eq_error_of_map h)).mono (hrest cut)

/-- The place before the first of some tokens that are in order and end with the file. -/
lemma Cursor.placed_ofLexemes {ls : List Lexeme} (hrest : ∀ l ∈ ls, l.span.Inside text)
    (hinOrder : ls.Pairwise fun l l' => l.span.Before l'.span)
    (hends : ∃ l ∈ ls, l.token = .endOfFile) : (ofLexemes ls).Placed text := by
  cases ls with
  | nil =>
    obtain ⟨_, h, _⟩ := hends
    cases h
  | cons l ls => exact ⟨hrest l List.mem_cons_self, hrest, hinOrder, hends, .refl _⟩

lemma Lexeme.placed_of_ofText {source : String} {ls : List Lexeme} (h : ofText source = .ok ls) :
    (Cursor.ofLexemes ls).Placed ⟨0, source.length⟩ := by
  obtain ⟨pieces, hrow, rfl⟩ := ofCharsAt_eq_ok_iff.mp h
  obtain ⟨front, hfront, hlaid⟩ := LaidOut.exists_ofRow hrow []
  rw [List.nil_append] at hfront hlaid
  have hls : ofRow 0 pieces = _ := hfront
  have hlength : source.toList.length = source.length := source.length_toList
  rw [hlength] at hls
  rw [hls]
  refine Cursor.placed_ofLexemes ?_ ?_ ⟨_, List.mem_append_right _ (List.mem_singleton_self _), rfl⟩
  · refine List.forall_mem_append.mpr ⟨fun l hl => ?_, List.forall_mem_singleton.mpr ?_⟩
    · exact ⟨Nat.le_of_lt (hlaid.nonempty l hl), Nat.zero_le _, hlength ▸ hlaid.inText l hl⟩
    · exact ⟨Nat.le_refl _, Nat.zero_le _, Nat.le_refl _⟩
  · refine List.pairwise_append.mpr ⟨hlaid.inOrder, List.pairwise_singleton _ _, ?_⟩
    intro l hl
    exact List.forall_mem_singleton.mpr (hlength ▸ hlaid.inText l hl)

/-- A text is refused for a fault in it, or the tree that is read of it is nested in it. -/
theorem Assembly.nested_of_ofText (source : String) :
    (∀ e, ofText source = .error e → e.span.Inside ⟨0, source.length⟩) ∧
      ∀ a, ofText source = .ok a → a.NestedIn ⟨0, source.length⟩ := by
  have hlexer : ∀ e, Lexeme.ofText source = .error e → e.span.Inside ⟨0, source.length⟩ := by
    intro e he
    have hinside := Lexeme.ofCharsAt_fault he
    rwa [Nat.zero_add, source.length_toList] at hinside
  rw [ofText]
  cases hls : Lexeme.ofText source with
  | error e =>
    refine ⟨?_, nofun⟩
    rintro _ ⟨⟩
    exact hlexer e hls
  | ok ls =>
    have hplaced := Lexeme.placed_of_ofText hls
    have hread := PlacesAt.bounded (fun n => Item.readTo_placesAt (fun _ => false) n _) hplaced
    obtain ⟨hok, herror⟩ := hread
    refine ⟨fun e he => herror e (eq_error_of_map he), fun a ha => ?_⟩
    obtain ⟨⟨items, c⟩, hitems, rfl⟩ := map_eq_ok_iff.mp ha
    obtain ⟨hmoves, hnested⟩ := hok items c hitems
    refine hnested.mono fun i hi => hi.mono ?_
    exact ⟨Nat.zero_le _, hmoves.placed.last.within.2⟩

end Interop.Source
