/-
# All members are read

Attributes, modifiers, parameters, accessors and members are read from tokens of their form.  They
are lists or stand in lists, and a reader of a list looks at the next token to tell another item
from the end; `Token.Opens` says which tokens an item can start with.
-/
import Interop.Proofs.Source.Completeness.Types

namespace Interop.Source

open Reader

variable {ts us rest : List Token}

section Prefixes

/-- Words: keywords and identifiers. -/
inductive Token.IsWord : Token → Prop
  | keyword (k : Keyword) : IsWord (.keyword k)
  | ident (name : String) : IsWord (.ident name)

/-- What a declaration, a member, a parameter or an item can start with. -/
inductive Token.Opens : Token → Prop
  | bracket : Opens (.symbol .leftBracket)
  | word {t} (hword : t.IsWord) : Opens t

lemma Token.IsWord.ne_symbol {t : Token} (h : t.IsWord) (s : Symbol) : t ≠ .symbol s := by
  cases h <;> simp

lemma Token.Opens.ne_endOfFile {t : Token} (h : t.Opens) : t ≠ .endOfFile := by
  obtain - | ⟨⟨⟩⟩ := h <;> simp

lemma Token.Opens.ne_symbol {t : Token} (h : t.Opens) {s : Symbol} (hs : s ≠ .leftBracket) :
    t ≠ .symbol s := by
  cases h with
  | bracket => simpa using hs.symm
  | word hword => exact hword.ne_symbol s

/-- A list starts like its first item. -/
lemma Separated.opens {α : Type} {separator : Token} {p : Phrase α} {as : List α}
    (hp : ∀ ts a, p ts a → (nextOf ts).Opens) (h : Separated separator p ts as)
    (us : List Token) : (nextOf (ts ++ us)).Opens := by
  cases h with
  | one hhead =>
    have hopens := hp _ _ hhead
    rwa [nextOf_append hopens.ne_endOfFile]
  | cons hhead _ =>
    have hopens := hp _ _ hhead
    rwa [List.append_assoc, nextOf_append hopens.ne_endOfFile]

lemma TypeExpr.Starts.isWord (h : Starts ts) : (nextOf ts).IsWord := by
  obtain ⟨word, us, rfl, rfl | ⟨name, rfl⟩, -⟩ := h
  · exact .keyword _
  · exact .ident name

lemma TypeExpr.Starts.ne_keyword (h : Starts ts) {k : Keyword} (hk : k ≠ .voidKw) :
    nextOf ts ≠ .keyword k := by
  obtain ⟨word, us, rfl, rfl | ⟨name, rfl⟩, -⟩ := h
  · simpa using hk.symm
  · simp

lemma Attribute.Groups.opens {as : List Attribute} (h : Groups ts as)
    (hus : (nextOf us).Opens) : (nextOf (ts ++ us)).Opens := by
  obtain ⟨- | ⟨⟨⟩⟩⟩ := h
  · exact hus
  · exact .bracket

lemma Attribute.read_completeTo (n : Nat) :
    read.CompleteTo n withoutSpans Derives fun _ => True := by
  rintro _ _ rest - ⟨name⟩ -
  refine .next fun _ => (Reads.ident name).bind fun _ h => .pure ?_
  rw [h]
  rfl

lemma Attribute.readLists_reads {groups : List (List Attribute)} (h : Many Group ts groups)
    (hrest : nextOf rest ≠ .symbol .leftBracket) {m : Nat} (hm : ts.length ≤ m) :
    (readLists m).Reads (ts ++ rest) rest (·.map (·.withoutSpans) = groups.flatten) := by
  induction h generalizing m with
  | nil =>
    cases m with
    | zero => exact .pure rfl
    | succ m => exact .accept_of_ne hrest (.pure rfl)
  | @cons _ us here _ hgroup _ ih =>
    obtain @⟨vs, _, hattributes⟩ := hgroup
    rw [List.length_append, List.cons_append, List.length_cons] at hm
    obtain ⟨m, rfl⟩ : ∃ k, m = k + 1 := Nat.exists_eq_add_one.mpr (by omega)
    simp only [List.append_assoc, List.cons_append, List.nil_append]
    refine .accept_of_eq (by simp) ?_
    have hread := separated_completeTo (read_completeTo _) (by simp) trivial vs here
      (.symbol .rightBracket :: (us ++ rest)) (Nat.le_refl _) hattributes ⟨by simp, trivial⟩
    refine hread.bind fun _ hhere => .expect (by simp) ?_
    refine (ih (by omega)).bind fun _ hthere => .pure ?_
    rw [List.map_append, List.flatten_cons, hhere, hthere]

lemma Attribute.readAll_reads {as : List Attribute} (h : Groups ts as)
    (hrest : nextOf rest ≠ .symbol .leftBracket) :
    readAll.Reads (ts ++ rest) rest (·.map (·.withoutSpans) = as) := by
  obtain ⟨hgroups⟩ := h
  exact .bounded (readLists_reads hgroups hrest (by simp))

lemma Keyword.Modifiers.isWord {ks : List Keyword} (h : Modifiers ts ks)
    (hus : (nextOf us).IsWord) : (nextOf (ts ++ us)).IsWord := by
  cases h with
  | nil => exact hus
  | cons _ _ => exact .keyword _

lemma Keyword.keywordsTimes_reads {ks : List Keyword} (h : Modifiers ts ks)
    (hrest : ∀ k ∈ modifiers, nextOf rest ≠ .keyword k) {m : Nat} (hm : ts.length ≤ m) :
    (keywordsTimes isModifier m).Reads (ts ++ rest) rest (· = ks) := by
  induction h generalizing m with
  | nil =>
    cases m with
    | zero => exact .pure rfl
    | succ m =>
      refine .next fun _ => ?_
      split
      · rename_i k hk
        rw [if_neg fun hmodifier => hrest k (k.isModifier_iff.mp hmodifier) hk]
        exact .pure rfl
      · exact .pure rfl
  | @cons _ k ks hmodifier _ ih =>
    obtain ⟨m, rfl⟩ : ∃ k, m = k + 1 := Nat.exists_eq_add_one.mpr (by simp at hm; omega)
    refine .next fun _ => ?_
    dsimp only [List.cons_append, nextOf_cons]
    rw [if_pos (k.isModifier_iff.mpr hmodifier)]
    refine .advance (by simp) ((ih (by simpa using hm)).bind fun ks' hks => .pure ?_)
    rw [hks]

lemma Keyword.readModifiers_reads {ks : List Keyword} (h : Modifiers ts ks)
    (hrest : ∀ k ∈ modifiers, nextOf rest ≠ .keyword k) :
    readModifiers.Reads (ts ++ rest) rest (· = ks) :=
  .bounded (keywordsTimes_reads h hrest (by simp))

end Prefixes

section Members

lemma ParamModifier.read_reads {modifier : ParamModifier} (h : Derives ts modifier)
    (hrest : TypeExpr.Starts rest) : read.Reads (ts ++ rest) rest (· = modifier) := by
  have hout := hrest.ne_keyword (k := .outKw) (by simp)
  have href := hrest.ne_keyword (k := .refKw) (by simp)
  have hin := hrest.ne_keyword (k := .inKw) (by simp)
  cases h with
  | unmarked =>
    exact .accept_of_ne hout (.accept_of_ne href (.accept_of_ne hin (.pure rfl)))
  | outMark => exact .accept_of_eq (by simp) (.pure rfl)
  | refMark => exact .accept_of_ne (by simp) (.accept_of_eq (by simp) (.pure rfl))
  | inMark =>
    refine .accept_of_ne (by simp) (.accept_of_ne (by simp) ?_)
    exact .accept_of_eq (by simp) (.pure rfl)

lemma Parameter.Derives.opens {p : Parameter} (h : Derives ts p) : (nextOf ts).Opens := by
  obtain @⟨ts, us, vs, _, _, _, name, hattributes, hmodifier, htype⟩ := h
  have hword : (nextOf (us ++ (vs ++ [.ident name]))).IsWord := by
    cases hmodifier with
    | unmarked => exact (htype.starts.append (by simp)).isWord
    | _ => exact .keyword _
  simpa using hattributes.opens (.word hword)

lemma Parameter.read_reads {p : Parameter} (h : Derives ts p)
    (hrest : nextOf rest ≠ .symbol .assign) :
    read.Reads (ts ++ rest) rest (·.withoutSpans = p) := by
  obtain @⟨ts, us, vs, _, _, _, name, hattributes, hmodifier, htype⟩ := h
  have hstarts : TypeExpr.Starts (vs ++ .ident name :: rest) := htype.starts.append (by simp)
  have hbracket : nextOf (us ++ (vs ++ .ident name :: rest)) ≠ .symbol .leftBracket := by
    cases hmodifier with
    | unmarked => exact hstarts.isWord.ne_symbol _
    | _ => simp
  simp only [List.append_assoc, List.cons_append, List.nil_append]
  refine .next fun _ => (Attribute.readAll_reads hattributes hbracket).bind fun _ _ => ?_
  refine (ParamModifier.read_reads hmodifier hstarts).bind fun _ hm => ?_
  refine (TypeExpr.read_reads htype (by simp [TypeExpr.Ends])).bind fun _ ht => ?_
  refine (Reads.ident name).bind fun _ hname => .next fun _ => ?_
  rw [if_neg hrest]
  refine .spanFrom fun _ => .pure ?_
  rw [withoutSpans, hname, ht, hm]

/-- Parameters are read behind their opening parenthesis. -/
lemma Parameter.InParens.exists_reads {params : List Parameter} (h : InParens ts params) :
    ∃ us, ts = .symbol .leftParen :: us ∧
      ∀ rest, readList.Reads (us ++ rest) rest (·.map (·.withoutSpans) = params) := by
  cases h with
  | nil =>
    refine ⟨_, rfl, fun rest => .sees ?_⟩
    exact .pure_bind (.expect (by simp) (.pure rfl))
  | @list us _ hparams =>
    refine ⟨us ++ [.symbol .rightParen], rfl, fun rest => ?_⟩
    have hread : read.CompleteTo us.length withoutSpans Derives (· ≠ .symbol .assign) :=
      fun _ _ _ _ h hrest => read_reads h hrest
    have hopen : nextOf (us ++ .symbol .rightParen :: rest) ≠ .symbol .rightParen :=
      (hparams.opens (fun _ _ => Derives.opens) _).ne_symbol (by simp)
    rw [List.append_assoc, List.singleton_append]
    refine .sees ?_
    rw [decide_eq_false hopen]
    refine (separated_completeTo hread (by simp) (by simp) us params (.symbol .rightParen :: rest)
      (Nat.le_refl _) hparams ⟨by simp, by simp⟩).bind fun _ h => ?_
    exact .expect (by simp) (.pure h)

section Accessors

variable {default : Visibility}

/-- One accessor is read and remembered. -/
lemma Accessor.readTimes_getter {g : Accessor} {setter : Option Accessor} {n : Nat}
    {rest' : List Token} {q : Option Accessor × Option Accessor → Prop}
    (h : Derives default .getKw ts g)
    (hmore : ∀ g', g'.withoutSpans = g →
      (readTimes default (some g') setter n).Reads rest rest' q) :
    (readTimes default none setter (n + 1)).Reads (ts ++ rest) rest' q := by
  obtain @⟨us, ks, v, hmodifiers, hvisibility⟩ := h
  have hword : (nextOf (us ++ .keyword .getKw :: .symbol .semicolon :: rest)).IsWord :=
    hmodifiers.isWord (.keyword _)
  simp only [List.append_assoc, List.cons_append, List.nil_append]
  refine .next fun _ => ?_
  rw [if_neg (by simp [hword.ne_symbol, (Token.Opens.word hword).ne_endOfFile])]
  refine (Keyword.readModifiers_reads hmodifiers (by simp [Keyword.modifiers])).bind fun _ hks => ?_
  refine .accept_of_eq (by simp) (.spanFrom fun _ => .expect (by simp) (hmore _ ?_))
  rw [withoutSpans, hks, Visibility.given_iff.mp hvisibility]

lemma Accessor.readTimes_setter {s : Accessor} {getter : Option Accessor} {n : Nat}
    {rest' : List Token} {q : Option Accessor × Option Accessor → Prop}
    (h : Derives default .setKw ts s)
    (hmore : ∀ s', s'.withoutSpans = s →
      (readTimes default getter (some s') n).Reads rest rest' q) :
    (readTimes default getter none (n + 1)).Reads (ts ++ rest) rest' q := by
  obtain @⟨us, ks, v, hmodifiers, hvisibility⟩ := h
  have hword : (nextOf (us ++ .keyword .setKw :: .symbol .semicolon :: rest)).IsWord :=
    hmodifiers.isWord (.keyword _)
  simp only [List.append_assoc, List.cons_append, List.nil_append]
  refine .next fun _ => ?_
  rw [if_neg (by simp [hword.ne_symbol, (Token.Opens.word hword).ne_endOfFile])]
  refine (Keyword.readModifiers_reads hmodifiers (by simp [Keyword.modifiers])).bind fun _ hks => ?_
  refine .accept_of_ne (by simp) (.accept_of_eq (by simp) ?_)
  refine .spanFrom fun _ => .expect (by simp) (hmore _ ?_)
  rw [withoutSpans, hks, Visibility.given_iff.mp hvisibility]

lemma Accessor.readTimes_end (getter setter : Option Accessor) (n : Nat)
    (hrest : nextOf rest = .symbol .rightBrace) :
    (readTimes default getter setter n).Reads rest rest (· = (getter, setter)) := by
  cases n with
  | zero => exact .pure rfl
  | succ n =>
    refine .next fun _ => ?_
    rw [if_pos (by simp [hrest])]
    exact .pure rfl

lemma Accessor.Derives.length_pos {accessor : Keyword} {a : Accessor}
    (h : Derives default accessor ts a) : 0 < ts.length := by
  cases h
  simp

lemma Accessor.readTimes_reads {both : Option Accessor × Option Accessor}
    (h : Pair default ts both) (hrest : nextOf rest = .symbol .rightBrace) {m : Nat}
    (hm : ts.length ≤ m) :
    (readTimes default none none m).Reads (ts ++ rest) rest fun b =>
      (b.1.map (·.withoutSpans), b.2.map (·.withoutSpans)) = both := by
  cases h with
  | getter hgetter =>
    have hpos := hgetter.length_pos
    obtain ⟨m, rfl⟩ : ∃ k, m = k + 1 := Nat.exists_eq_add_one.mpr (by omega)
    refine readTimes_getter hgetter fun g hg => (readTimes_end _ _ m hrest).mono ?_
    rintro _ rfl
    simp [hg]
  | setter hsetter =>
    have hpos := hsetter.length_pos
    obtain ⟨m, rfl⟩ : ∃ k, m = k + 1 := Nat.exists_eq_add_one.mpr (by omega)
    refine readTimes_setter hsetter fun s hs => (readTimes_end _ _ m hrest).mono ?_
    rintro _ rfl
    simp [hs]
  | getterSetter hgetter hsetter =>
    have hpos := hgetter.length_pos
    have hpos' := hsetter.length_pos
    rw [List.length_append] at hm
    obtain ⟨m, rfl⟩ : ∃ k, m = k + 2 := ⟨m - 2, by omega⟩
    rw [List.append_assoc]
    refine readTimes_getter hgetter fun g hg => readTimes_setter hsetter fun s hs => ?_
    refine (readTimes_end _ _ m hrest).mono ?_
    rintro _ rfl
    simp [hg, hs]
  | setterGetter hsetter hgetter =>
    have hpos := hgetter.length_pos
    have hpos' := hsetter.length_pos
    rw [List.length_append] at hm
    obtain ⟨m, rfl⟩ : ∃ k, m = k + 2 := ⟨m - 2, by omega⟩
    rw [List.append_assoc]
    refine readTimes_setter hsetter fun s hs => readTimes_getter hgetter fun g hg => ?_
    refine (readTimes_end _ _ m hrest).mono ?_
    rintro _ rfl
    simp [hg, hs]

lemma Accessor.readBoth_reads {both : Option Accessor × Option Accessor}
    (h : InBraces default ts both) :
    (readBoth default).Reads (ts ++ rest) rest fun b =>
      (b.1.map (·.withoutSpans), b.2.map (·.withoutSpans)) = both := by
  obtain @⟨us, both, hpair⟩ := h
  simp only [List.append_assoc, List.cons_append, List.nil_append]
  refine .next fun _ => .expect (by simp) ?_
  refine (Reads.bounded (readTimes_reads hpair (nextOf_cons _ rest) (by simp))).bind ?_
  rintro ⟨getter, setter⟩ rfl
  have hsome : ¬(getter.isNone && setter.isNone) = true := by
    intro hnone
    cases getter <;> cases setter <;> cases hpair <;> cases hnone
  refine .expect (by simp) ?_
  rw [if_neg hsome]
  exact .pure rfl

end Accessors

variable {typeName : String} {visibility : Visibility}

/-- A member is a constructor, or has a type and then what is read behind a type. -/
lemma MemberKind.Derives.constructor_or_typed {m : String × MemberKind}
    (h : Derives typeName visibility ts m) :
    (∃ us params, ts = .ident typeName :: us ++ [.symbol .semicolon] ∧
        Parameter.InParens us params ∧ m = (typeName, .constructor params)) ∨
      ∃ us name vs type, ts = us ++ .ident name :: vs ∧ TypeExpr.Derives us type ∧
        ∀ (type' : TypeExpr) (rest : List Token), type'.withoutSpans = type →
          (Member.readTyped visibility type').Reads (.ident name :: vs ++ rest) rest
            fun b => (b.1, b.2.withoutSpans) = m := by
  cases h with
  | constructor hparams => exact .inl ⟨_, _, rfl, hparams, rfl⟩
  | @method us vs type params name htype hparams =>
    refine .inr ⟨us, name, vs ++ [.symbol .semicolon], type, by simp, htype, ?_⟩
    intro type' rest htype'
    obtain ⟨ws, rfl, hread⟩ := hparams.exists_reads
    simp only [List.append_assoc, List.cons_append, List.nil_append]
    refine .next fun _ => (Reads.ident name).bind fun _ hname => .next fun _ => ?_
    refine .advance (by simp) ((hread _).bind fun _ hps => .expect (by simp) (.pure ?_))
    rw [hname, withoutSpans, hps, htype']
  | @property us vs type getter setter name htype haccessors =>
    refine .inr ⟨us, name, vs, type, rfl, htype, ?_⟩
    intro type' rest htype'
    have hvs : ∃ ws, vs = .symbol .leftBrace :: ws := by
      obtain ⟨hpair⟩ := haccessors
      exact ⟨_, rfl⟩
    obtain ⟨ws, rfl⟩ := hvs
    refine .next fun _ => (Reads.ident name).bind fun _ hname => .next fun _ => ?_
    refine (Accessor.readBoth_reads haccessors).bind fun _ hboth => .pure ?_
    rw [Prod.mk.injEq] at hboth
    rw [hname, withoutSpans, htype', hboth.1, hboth.2]

lemma MemberKind.Derives.isWord {m : String × MemberKind} (h : Derives typeName visibility ts m)
    (us : List Token) : (nextOf (ts ++ us)).IsWord := by
  obtain ⟨_, _, rfl, -, -⟩ | ⟨vs, name, ws, type, rfl, htype, -⟩ := h.constructor_or_typed
  · exact .ident _
  · rw [List.append_assoc]
    exact (htype.starts.append (by simp)).isWord

lemma Member.Derives.opens {m : Member} (h : Derives typeName ts m) : (nextOf ts).Opens := by
  obtain @⟨ts, us, vs, _, _, _, _, _, hattributes, hmodifiers, -, hkind⟩ := h
  have hword := hmodifiers.isWord (hkind.isWord [])
  rw [List.append_assoc]
  exact hattributes.opens (.word (by simpa using hword))

lemma Member.read_reads {m : Member} (h : Derives typeName ts m) :
    (read typeName).Reads (ts ++ rest) rest (·.withoutSpans = m) := by
  obtain @⟨ts, us, vs, _, ks, v, name, kind, hattributes, hmodifiers, hvisibility, hkind⟩ := h
  have hword := hmodifiers.isWord (hkind.isWord rest)
  simp only [List.append_assoc]
  refine .next fun _ =>
    (Attribute.readAll_reads hattributes (hword.ne_symbol _)).bind fun _ _ => ?_
  obtain ⟨ws, params, rfl, hparams, hm⟩ | ⟨ws, word, xs, type, rfl, htype, hread⟩ :=
    hkind.constructor_or_typed
  · obtain ⟨xs, rfl, hread⟩ := hparams.exists_reads
    simp only [List.append_assoc, List.cons_append, List.nil_append]
    refine (Keyword.readModifiers_reads hmodifiers (by simp)).bind fun _ hks => .next fun _ => ?_
    refine .second ?_
    rw [if_pos (by simp)]
    have hconstructor : readConstructor.Reads
        (.ident typeName :: .symbol .leftParen :: (xs ++ .symbol .semicolon :: rest)) rest
        fun b => (b.1, b.2.withoutSpans) = (name, kind) := by
      refine (Reads.ident typeName).bind fun _ hname => .expect (by simp) ?_
      refine (hread _).bind fun _ hps => .expect (by simp) (.pure ?_)
      rw [hm, hname, MemberKind.withoutSpans, hps]
    refine hconstructor.bind fun b hb => .spanFrom fun _ => .pure ?_
    obtain ⟨rfl, rfl⟩ := Prod.mk.inj hb
    rw [withoutSpans, hks, Visibility.given_iff.mp hvisibility]
  · have hstarts : TypeExpr.Starts (ws ++ (.ident word :: xs ++ rest)) :=
      htype.starts.append (by simp)
    have hmodifier : ∀ k ∈ Keyword.modifiers,
        nextOf (ws ++ (.ident word :: xs ++ rest)) ≠ .keyword k := by
      intro k hk
      refine hstarts.ne_keyword ?_
      rintro rfl
      simp [Keyword.modifiers] at hk
    rw [List.append_assoc]
    refine (Keyword.readModifiers_reads hmodifiers hmodifier).bind fun _ hks => .next fun _ => ?_
    -- no type starts with the word of a declaration that is not supported
    split
    iterate 5 exact absurd (by assumption) (hstarts.ne_keyword (by simp))
    refine .second ?_
    have hsecond : (ws ++ (.ident word :: xs ++ rest))[1]? ≠ some (.symbol .leftParen) := by
      obtain ⟨first, ys, hys, -, hparen⟩ := hstarts
      rw [hys]
      cases ys with
      | nil => simp
      | cons _ _ => simpa using hparen
    rw [if_neg fun h => hsecond (of_decide_eq_true (Bool.and_eq_true_iff.mp h).2)]
    refine (TypeExpr.read_reads htype (by simp [TypeExpr.Ends])).bind fun type' htype' => ?_
    rw [hks, Visibility.given_iff.mp hvisibility]
    refine (hread type' rest htype').bind fun b hb => .spanFrom fun _ => .pure ?_
    obtain ⟨rfl, rfl⟩ := Prod.mk.inj hb
    rw [withoutSpans]

end Members

end Interop.Source
