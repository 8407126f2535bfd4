/-
# All types and expressions are read

From tokens of its form a reader of names, of types or of constant expressions reads their tree and
stops behind them, if the token after them does not go on with the phrase.  `Ends` says for each
form which tokens do not.

Pairs of brackets behind a type are derived from the last one and read from the first one.  So what
is shown by induction is that behind the pairs so far, whatever reads the rest of the type reads the
type.
-/
import Interop.Proofs.Source.CompleteReading
import Interop.Proofs.Source.Words
import Mathlib.Logic.Function.Iterate

namespace Interop.Source

open Reader

variable {ts us rest : List Token}

section Names

/-- A dotted name starts with an identifier, and goes on with a dot if at all. -/
lemma Separated.exists_ident {names : List String}
    (h : Separated (.symbol .dot) Ident ts names) :
    ∃ head us tail, ts = .ident head :: us ∧ names = head :: tail ∧
      (us = [] ∧ tail = [] ∨
        ∃ vs, us = .symbol .dot :: vs ∧ Separated (.symbol .dot) Ident vs tail) := by
  obtain ⟨⟨⟩⟩ | ⟨⟨⟩, htail⟩ := h
  · exact ⟨_, [], [], rfl, rfl, .inl ⟨rfl, rfl⟩⟩
  · exact ⟨_, _, _, rfl, rfl, .inr ⟨_, rfl, htail⟩⟩

lemma DottedName.Derives.exists_ident {name : DottedName} (h : Derives ts name) :
    ∃ head us, ts = .ident head :: us := by
  obtain ⟨hnames⟩ := h
  obtain ⟨head, us, -, hts, -⟩ := hnames.exists_ident
  exact ⟨head, us, hts⟩

lemma DottedName.segments_of_withoutSpans {name name' : DottedName}
    (h : name.withoutSpans = name') : name.segments = name'.segments := by
  rw [← h]
  rfl

lemma DottedName.read_reads {name : DottedName} (h : Derives ts name)
    (hrest : nextOf rest ≠ .symbol .dot) (what : String) :
    (read what).Reads (ts ++ rest) rest (·.withoutSpans = name) := by
  obtain ⟨hnames⟩ := h
  obtain ⟨head, us, tail, rfl, rfl, ⟨rfl, rfl⟩ | ⟨vs, rfl, htail⟩⟩ := hnames.exists_ident
  · refine .next fun _ => (Reads.ident head).bind fun _ hhead => ?_
    refine .accept_of_ne hrest (.last fun _ => .pure ?_)
    rw [hhead]
    rfl
  · refine .next fun _ => (Reads.ident head).bind fun _ hhead => ?_
    have hident : (ident "identifier after '.'").CompleteTo vs.length id Ident fun _ => True := by
      rintro _ _ rest - ⟨⟩ -
      exact .ident _
    refine .accept_of_eq (by simp) ?_
    refine (separated_completeTo hident (by simp) trivial vs tail rest (Nat.le_refl _) htail
      ⟨hrest, trivial⟩).bind fun names hnames => .last fun _ => .pure ?_
    rw [List.map_id] at hnames
    rw [hhead, hnames]
    rfl

end Names

section Types

/-- The tokens with which a type does not go on. -/
def TypeExpr.Ends (t : Token) : Prop :=
  t ≠ .symbol .dot ∧ t ≠ .symbol .less ∧ t ≠ .symbol .leftBracket ∧ t ≠ .symbol .question

/-- What is done behind the head of a type and some pairs of brackets. -/
def TypeExpr.readEnd (type : TypeExpr) (n : Nat) : Reader TypeExpr := do
  let type ← readSuffix type n
  if ← accept (.symbol .question) then return .nullable type
  else return type

lemma TypeExpr.readSuffix_reads (hrest : nextOf rest ≠ .symbol .leftBracket) (type : TypeExpr)
    (n : Nat) : (readSuffix type n).Reads rest rest (· = type) := by
  cases n with
  | zero => exact .pure rfl
  | succ n => exact .accept_of_ne hrest (.pure rfl)

section

variable {argument : Reader TypeExpr} {n : Nat} {t : TypeExpr} {rest' : List Token}
  {q : TypeExpr → Prop} (hargument : argument.CompleteTo n withoutSpans Derives Ends)
include hargument

/-- Behind the head of a type, the rest of a type is read. -/
lemma TypeExpr.readWith_of_head (h : Head Derives ts t) (hn : ts.length ≤ n + 1)
    (hdot : nextOf rest ≠ .symbol .dot) (hless : nextOf rest ≠ .symbol .less)
    (hend : ∀ head, head.withoutSpans = t → (readEnd head rest.length).Reads rest rest' q) :
    (readWith argument).Reads (ts ++ rest) rest' q := by
  have hthen (head : TypeExpr) (hhead : head.withoutSpans = t) :
      (do
        let type ← bounded (readSuffix head)
        if ← accept (.symbol .question) then return .nullable type
        else return type : Reader TypeExpr).Reads rest rest' q := by
    intro c hc
    have hread := hend head hhead c hc
    rwa [← hc, Cursor.length_tokens] at hread
  have hword {name' : DottedName} (hname' : DottedName.Derives ts name')
      (hof : ∀ name : DottedName, name.withoutSpans = name' → (ofName name).withoutSpans = t) :
      (readWith argument).Reads (ts ++ rest) rest' q := by
    obtain ⟨head, us, rfl⟩ := hname'.exists_ident
    refine .accept_of_ne (by simp) ?_
    exact (DottedName.read_reads hname' hdot _).bind fun name hname =>
      .accept_of_ne hless (.pure_bind (hthen _ (hof name hname)))
  cases h with
  | void => exact .accept_of_eq (by simp) (.pure_bind (hthen .void rfl))
  | string =>
    refine hword (.mk (.one (.mk "string"))) fun name hname => ?_
    rw [ofName_string (DottedName.segments_of_withoutSpans hname)]
    rfl
  | primitive p =>
    refine hword (.mk (.one (.mk p.keyword))) fun name hname => ?_
    rw [ofName_primitive (DottedName.segments_of_withoutSpans hname)]
    rfl
  | named hname' hdeclared =>
    refine hword hname' fun name hname => ?_
    subst hname
    have hdeclared : name.IsDeclared := hdeclared
    rw [ofName_declared hdeclared, withoutSpans]
  | @generic ts us name' args hname' hargs =>
    obtain ⟨head, vs, rfl⟩ := hname'.exists_ident
    have hus : us.length ≤ n := by
      simp only [List.length_append, List.length_cons] at hn
      omega
    simp only [List.append_assoc, List.cons_append, List.nil_append]
    refine .accept_of_ne (by simp) ?_
    refine (DottedName.read_reads hname' (by simp) _).bind fun name hname =>
      .accept_of_eq (by simp) ?_
    have hargs := separated_completeTo hargument (by simp) (by simp [Ends]) us args
      (.symbol .greater :: rest) hus hargs (by simp [Ends])
    refine hargs.bind fun args' hargs' => .expect (by simp) (.pure_bind (hthen _ ?_))
    rw [withoutSpans, allWithoutSpans_eq_map, hname, hargs']

/-- Behind pairs of brackets, the rest of a type is read. -/
lemma TypeExpr.readWith_of_arrayed (h : Arrayed Derives ts t) (hn : ts.length ≤ n + 1)
    (hdot : nextOf rest ≠ .symbol .dot) (hless : nextOf rest ≠ .symbol .less)
    (hend : ∀ type m, type.withoutSpans = t → rest.length ≤ m →
      (readEnd type m).Reads rest rest' q) :
    (readWith argument).Reads (ts ++ rest) rest' q := by
  induction h generalizing rest with
  | head hhead =>
    exact readWith_of_head hargument hhead hn hdot hless fun head h =>
      hend head rest.length h (Nat.le_refl _)
  | @array ts t _ ih =>
    rw [List.length_append] at hn
    rw [List.append_assoc]
    -- this last pair is part of what comes behind the pairs before it
    refine ih (by omega) (by simp) (by simp) fun type m htype hm => ?_
    rw [List.length_append, List.length_cons, List.length_singleton] at hm
    obtain ⟨m, rfl⟩ : ∃ k, m = k + 1 := Nat.exists_eq_add_one.mpr (by omega)
    refine .assoc (.accept_of_eq (by simp) (.assoc (.expect (by simp) ?_)))
    exact hend (.array type) m (by rw [withoutSpans, htype]) (by omega)

lemma TypeExpr.readWith_completeTo :
    (readWith argument).CompleteTo (n + 1) withoutSpans Derives Ends := by
  rintro _ _ rest hn (harrayed | harrayed) ⟨hdot, hless, hbracket, hquestion⟩
  · refine readWith_of_arrayed hargument harrayed hn hdot hless fun type m htype _ => ?_
    refine (readSuffix_reads hbracket type m).bind fun _ h => .accept_of_ne hquestion (.pure ?_)
    rw [h, htype]
  · rw [List.length_append] at hn
    rw [List.append_assoc]
    refine readWith_of_arrayed hargument harrayed (by omega) (by simp) (by simp)
      fun type m htype _ => ?_
    refine (readSuffix_reads (by simp) type m).bind fun _ h =>
      .accept_of_eq (by simp) (.pure ?_)
    rw [h, withoutSpans, htype]

end

/-- Tokens that start with an identifier or with `void`, and go on with no parenthesis. -/
def TypeExpr.Starts (ts : List Token) : Prop :=
  ∃ word us, ts = word :: us ∧ (word = .keyword .voidKw ∨ ∃ name, word = .ident name) ∧
    nextOf us ≠ .symbol .leftParen

lemma TypeExpr.Starts.append (hts : Starts ts) (hus : nextOf us ≠ .symbol .leftParen) :
    Starts (ts ++ us) := by
  obtain ⟨word, vs, rfl, hword, hvs⟩ := hts
  exact ⟨word, vs ++ us, rfl, hword, nextOf_append_ne hvs hus⟩

lemma TypeExpr.Starts.of_name {name : DottedName} (h : DottedName.Derives ts name) :
    Starts ts := by
  obtain ⟨hnames⟩ := h
  obtain ⟨head, us, tail, rfl, -, ⟨rfl, -⟩ | ⟨vs, rfl, -⟩⟩ := hnames.exists_ident
  · exact ⟨_, _, rfl, .inr ⟨head, rfl⟩, by simp⟩
  · exact ⟨_, _, rfl, .inr ⟨head, rfl⟩, by simp⟩

lemma TypeExpr.Head.starts {type : Phrase TypeExpr} {t : TypeExpr} (h : Head type ts t) :
    Starts ts := by
  cases h with
  | void => exact ⟨_, _, rfl, .inl rfl, by simp⟩
  | string => exact ⟨_, _, rfl, .inr ⟨_, rfl⟩, by simp⟩
  | primitive p => exact ⟨_, _, rfl, .inr ⟨_, rfl⟩, by simp⟩
  | named hname => exact .of_name hname
  | generic hname => exact ((Starts.of_name hname).append (by simp)).append (by simp)

lemma TypeExpr.Arrayed.starts {type : Phrase TypeExpr} {t : TypeExpr} (h : Arrayed type ts t) :
    Starts ts := by
  induction h with
  | head hhead => exact hhead.starts
  | array _ ih => exact ih.append (by simp)

lemma TypeExpr.Derives.starts {t : TypeExpr} (h : Derives ts t) : Starts ts := by
  cases h with
  | plain h => exact h.starts
  | nullable h => exact h.starts.append (by simp)

lemma TypeExpr.readTo_completeTo (n : Nat) :
    (readTo n).CompleteTo n withoutSpans Derives Ends := by
  induction n with
  | zero =>
    intro ts t rest hn h
    obtain ⟨word, us, rfl, -⟩ := h.starts
    cases hn
  | succ n ih => exact readWith_completeTo ih

lemma TypeExpr.read_reads {t : TypeExpr} (h : Derives ts t) (hrest : Ends (nextOf rest)) :
    read.Reads (ts ++ rest) rest (·.withoutSpans = t) := by
  refine .bounded (readTo_completeTo _ ts t rest (by simp) h hrest)

end Types

section Expressions

variable {expr : Phrase EnumExpr} {e : EnumExpr}

/-- An expression is one without a sign before it, with some minus signs. -/
lemma EnumExpr.Unary.exists_primary (h : Unary expr ts e) :
    ∃ k us e', Primary expr us e' ∧ ts = List.replicate k (.symbol .minus) ++ us ∧
      e = (.negate · .nowhere)^[k] e' := by
  induction h with
  | primary h => exact ⟨0, _, _, h, rfl, rfl⟩
  | negate _ ih =>
    obtain ⟨k, us, e', h, rfl, rfl⟩ := ih
    refine ⟨k + 1, us, e', h, rfl, ?_⟩
    rw [Function.iterate_succ_apply']

lemma EnumExpr.readSigns_reads (hrest : nextOf rest ≠ .symbol .minus) {k m : Nat} (hm : k ≤ m) :
    (readSigns m).Reads (List.replicate k (.symbol .minus) ++ rest) rest (·.length = k) := by
  induction k generalizing m with
  | zero =>
    cases m with
    | zero => exact .pure rfl
    | succ m => exact .accept_of_ne hrest (.pure rfl)
  | succ k ih =>
    obtain ⟨m, rfl⟩ : ∃ j, m = j + 1 := Nat.exists_eq_add_one.mpr (by omega)
    refine .accept_of_eq (by simp) (.last fun _ => (ih (by omega)).bind fun starts hstarts => ?_)
    exact .pure (by rw [List.length_cons, hstarts])

lemma EnumExpr.withoutSpans_foldr (e : EnumExpr) (starts : List Nat) :
    (starts.foldr (fun start e => .negate e ⟨start, e.span.stop⟩) e).withoutSpans =
      (.negate · .nowhere)^[starts.length] e.withoutSpans := by
  induction starts with
  | nil => rfl
  | cons start starts ih =>
    rw [List.foldr_cons, withoutSpans, ih, List.length_cons, Function.iterate_succ_apply']

lemma EnumExpr.Primary.exists_cons (h : Primary expr ts e) :
    ∃ t us, ts = t :: us ∧ t ≠ .symbol .minus := by
  cases h with
  | literal value => exact ⟨_, _, rfl, by simp⟩
  | item hpath =>
    obtain ⟨head, us, -, rfl, -⟩ := hpath.exists_ident
    exact ⟨_, _, rfl, by simp⟩
  | parens hexpr => exact ⟨_, _, rfl, by simp⟩

lemma EnumExpr.Unary.ne_nil (h : Unary expr ts e) : ts ≠ [] := by
  cases h with
  | primary h =>
    obtain ⟨t, us, rfl, -⟩ := h.exists_cons
    exact List.cons_ne_nil t us
  | negate h => exact List.cons_ne_nil _ _

lemma Chain.ne_nil {α : Type} {operator : Token} {join : α → α → α} {p : Phrase α} {a : α}
    (hp : ∀ ts a, p ts a → ts ≠ []) (h : Chain operator join p ts a) : ts ≠ [] := by
  cases h with
  | one h => exact hp _ _ h
  | join h h' => simp

lemma EnumExpr.Derives.ne_nil (h : Derives ts e) : ts ≠ [] := by
  obtain ⟨hchain⟩ := h
  exact hchain.ne_nil fun _ _ hshift => hshift.ne_nil fun _ _ hunary => hunary.ne_nil

/-- The tokens with which an expression does not go on. -/
def EnumExpr.Ends (t : Token) : Prop :=
  t ≠ .symbol .pipe ∧ t ≠ .symbol .shiftLeft ∧ t ≠ .symbol .dot

section

variable {inner : Reader EnumExpr} {n : Nat} {follow : Token → Prop}

lemma EnumExpr.readPrimary_completeTo (hinner : inner.CompleteTo n withoutSpans expr follow)
    (hfollow : follow (.symbol .rightParen)) :
    (readPrimary inner).CompleteTo (n + 1) withoutSpans (Primary expr) (· ≠ .symbol .dot) := by
  rintro ts e rest hn hprimary hrest
  cases hprimary with
  | literal value => exact .next fun _ => .advance (by simp) (.pure rfl)
  | @item _ path last hpath =>
    obtain ⟨head, us, tail, rfl, -, -⟩ := hpath.exists_ident
    refine .next fun _ => (DottedName.read_reads (.mk hpath) hrest _).bind fun name hname => ?_
    refine .pure ?_
    rw [DottedName.segments_of_withoutSpans hname, List.getLastD_concat]
    rfl
  | @parens ts _ hexpr =>
    have hts : ts.length ≤ n := by
      simp only [List.cons_append, List.length_cons, List.length_append] at hn
      omega
    simp only [List.append_assoc, List.cons_append, List.nil_append]
    refine .next fun _ => .advance (by simp) ?_
    exact (hinner ts e (.symbol .rightParen :: rest) hts hexpr hfollow).bind fun _ h =>
      .expect (by simp) (.pure h)

lemma EnumExpr.readUnary_completeTo (hinner : inner.CompleteTo n withoutSpans expr follow)
    (hfollow : follow (.symbol .rightParen)) :
    (readUnary inner).CompleteTo (n + 1) withoutSpans (Unary expr) (· ≠ .symbol .dot) := by
  rintro _ _ rest hn hunary hrest
  obtain ⟨k, us, e', hprimary, rfl, rfl⟩ := hunary.exists_primary
  obtain ⟨t, vs, rfl, ht⟩ := hprimary.exists_cons
  rw [List.length_append] at hn
  rw [List.append_assoc]
  refine (Reads.bounded (readSigns_reads (k := k) (by simpa using ht) (by simp))).bind
    fun starts hstarts => ?_
  refine (readPrimary_completeTo hinner hfollow _ _ rest (by omega) hprimary hrest).bind
    fun operand hoperand => .pure ?_
  rw [withoutSpans_foldr, hstarts, hoperand]

lemma EnumExpr.readWith_completeTo (hinner : inner.CompleteTo n withoutSpans Derives Ends) :
    (readWith inner).CompleteTo (n + 1) withoutSpans Derives Ends := by
  rintro ts e rest hn ⟨hchain⟩ hrest
  have hshift : (chain (.symbol .shiftLeft) (readUnary inner) .shiftLeft).CompleteTo (n + 1)
      withoutSpans (Chain (.symbol .shiftLeft) .shiftLeft (Unary Derives)) fun t =>
        t ≠ .symbol .shiftLeft ∧ t ≠ .symbol .dot :=
    chain_completeTo (readUnary_completeTo hinner (by simp [Ends])) (fun _ _ => by rfl) (by simp)
      (by simp)
  exact chain_completeTo hshift (fun _ _ => by rfl) (by simp) (by simp) ts e rest hn hchain hrest

end

lemma EnumExpr.readTo_completeTo (n : Nat) :
    (readTo n).CompleteTo n withoutSpans Derives Ends := by
  induction n with
  | zero =>
    intro ts e rest hn h
    exact absurd (List.length_eq_zero_iff.mp (Nat.le_zero.mp hn)) h.ne_nil
  | succ n ih => exact readWith_completeTo ih

lemma EnumExpr.read_reads (h : Derives ts e) (hrest : Ends (nextOf rest)) :
    read.Reads (ts ++ rest) rest (·.withoutSpans = e) :=
  .bounded (readTo_completeTo _ ts e rest (by simp) h hrest)

end Expressions

end Interop.Source
