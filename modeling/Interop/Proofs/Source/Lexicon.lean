/-
# The lexicon

What a source text is made of, said without the lexer: white space and comments, the spelling of
each token, and where a piece of a text ends.  Pieces end by longest match.  Words and numbers
compete as runs of letters, digits and underscores, so that `12abc` is one run, which spells
nothing, and not a number before a word.

Main definitions:
* `IsTrivia` and `Token.SpelledBy` say what the pieces of a text look like;
* `Piece.Takes` says that a piece begins a text and that nothing longer competes there.

Main result:
* `Piece.takes_iff`: whether a piece ends depends on the next character only.
-/
import Mathlib.Data.List.Forall2
import Mathlib.Data.List.TakeWhile
import Mathlib.Data.Nat.Digits.Defs
import Mathlib.Tactic.IntervalCases
import Interop.Source.Lexer

namespace Interop.Source

/-! ### The spelling of pieces -/

/-- White space, a comment up to the end of its line, or a comment up to its first `*/`. -/
inductive IsTrivia : List Char → Prop
  | blank {c : Char} (h : Text.isBlank c = true) : IsTrivia [c]
  | lineComment {body : List Char} (h : '\n' ∉ body) : IsTrivia ('/' :: '/' :: body)
  | blockComment {body : List Char} (h : ¬ ['*', '/'] <:+: body) :
    IsTrivia ('/' :: '*' :: (body ++ ['*', '/']))

/-- A run of letters, digits and underscores. -/
def IsRun (text : List Char) : Prop := text ≠ [] ∧ ∀ c ∈ text, isWordChar c = true

/-- A run that does not start with a digit. -/
def IsWord (text : List Char) : Prop := IsRun text ∧ text.head?.any isWordStart = true

/-- A character is the digit with the value `d` in a base, in either case. -/
def IsDigit (base : Nat) (c : Char) (d : Nat) : Prop :=
  d < base ∧ (c = d.digitChar ∨ c = d.digitChar.toUpper)

/-- Digits, of which there is at least one, with underscores among them denote a number. -/
def Denotes (base : Nat) (digits : List Char) (n : Nat) : Prop :=
  ∃ values, values ≠ [] ∧ List.Forall₂ (IsDigit base) (digits.filter (· != '_')) values ∧
    Nat.ofDigits base values.reverse = n

/-- How tokens are spelled.  A word is a keyword if it can be; a number may end in letters without
a meaning, and fits into 64 bits. -/
inductive Token.SpelledBy : Token → List Char → Prop
  | keyword (k : Keyword) : SpelledBy (.keyword k) k.text.toList
  | ident {text : List Char} (hword : IsWord text)
    (hkeyword : ∀ k : Keyword, k.text.toList ≠ text) : SpelledBy (.ident (String.ofList text)) text
  | decimal {digits suffix : List Char} {v : UInt64} (hstart : digits.head?.any Char.isDigit = true)
    (hvalue : Denotes 10 digits v.toNat) (hsuffix : ∀ c ∈ suffix, isSuffixLetter c = true) :
    SpelledBy (.integer v) (digits ++ suffix)
  | hexadecimal {mark : Char} {digits suffix : List Char} {v : UInt64}
    (hmark : mark = 'x' ∨ mark = 'X') (hvalue : Denotes 16 digits v.toNat)
    (hsuffix : ∀ c ∈ suffix, isSuffixLetter c = true) :
    SpelledBy (.integer v) ('0' :: mark :: (digits ++ suffix))
  | symbol (s : Symbol) : SpelledBy (.symbol s) s.text.toList

/-- How pieces are spelled. -/
inductive Piece.SpelledBy : Piece → List Char → Prop
  | trivia {text : List Char} (h : IsTrivia text) : SpelledBy .trivia text
  | token {t : Token} {text : List Char} (h : t.SpelledBy text) : SpelledBy (.token t) text

/-- What competes for the longest match. -/
inductive IsCandidate : List Char → Prop
  | trivia {text : List Char} (h : IsTrivia text) : IsCandidate text
  | run {text : List Char} (h : IsRun text) : IsCandidate text
  | symbol (s : Symbol) : IsCandidate s.text.toList

/-- A piece is spelled by `text`, with which `text ++ rest` begins, and nothing longer competes. -/
def Piece.Takes (p : Piece) (text rest : List Char) : Prop :=
  p.SpelledBy text ∧ ∀ more, more ≠ [] → more <+: rest → ¬ IsCandidate (text ++ more)

/-- A piece that ends in `text` would be longer if `c` came next. -/
inductive Joins : List Char → Char → Prop
  | run {text : List Char} {c : Char} (htext : IsRun text) (hc : isWordChar c = true) : Joins text c
  | shift : Joins ['<'] '<'
  | lineComment {body : List Char} {c : Char} (hc : c ≠ '\n') : Joins ('/' :: '/' :: body) c

/-! ### Characters of different kinds -/

/-- What holds of all characters with codes between two bounds. -/
lemma forall_of_codes {P : Char → Prop} {first last : Nat}
    (h : ∀ n ≤ last, first ≤ n → P (Char.ofNat n)) {c : Char} (hfirst : first ≤ c.toNat)
    (hlast : c.toNat ≤ last) : P c := by
  have hc := h c.toNat hlast hfirst
  rwa [Char.ofNat_toNat] at hc

lemma isDigit_iff {c : Char} : c.isDigit = true ↔ 48 ≤ c.toNat ∧ c.toNat ≤ 57 := by
  simp [Char.isDigit, UInt32.le_iff_toNat_le]

lemma isHexDigit_iff {c : Char} : isHexDigit c = true ↔ (48 ≤ c.toNat ∧ c.toNat ≤ 57) ∨
    (97 ≤ c.toNat ∧ c.toNat ≤ 102) ∨ (65 ≤ c.toNat ∧ c.toNat ≤ 70) := by
  simp [isHexDigit, isDigit_iff, Char.le_def, UInt32.le_iff_toNat_le, or_assoc]

lemma isWordStart_eq_false_of_isDigit {c : Char} (h : c.isDigit = true) :
    isWordStart c = false := by
  obtain ⟨hfirst, hlast⟩ := isDigit_iff.mp h
  exact forall_of_codes (P := fun c => isWordStart c = false) (by decide) hfirst hlast

lemma isDigit_eq_false_of_isWordStart {c : Char} (h : isWordStart c = true) :
    c.isDigit = false := by
  cases hdigit : c.isDigit with
  | false => rfl
  | true =>
    rw [isWordStart_eq_false_of_isDigit hdigit] at h
    cases h

lemma isWordChar_of_isHexDigit {c : Char} (h : isHexDigit c = true) : isWordChar c = true := by
  have hcodes := fun first last hall (hc : first ≤ c.toNat ∧ c.toNat ≤ last) =>
    forall_of_codes (P := fun c => isWordChar c = true) hall hc.1 hc.2
  rcases isHexDigit_iff.mp h with h | h | h
  · exact hcodes _ _ (by decide) h
  · exact hcodes _ _ (by decide) h
  · exact hcodes _ _ (by decide) h

lemma isWordChar_of_isDigit {c : Char} (h : c.isDigit = true) : isWordChar c = true := by
  simp [isWordChar, Char.isAlphanum, h]

lemma isWordChar_of_isWordStart {c : Char} (h : isWordStart c = true) : isWordChar c = true := by
  simp only [isWordStart, Bool.or_eq_true] at h
  rcases h with h | h <;> simp [isWordChar, Char.isAlphanum, h]

lemma isWordChar_of_isSuffixLetter {c : Char} (h : isSuffixLetter c = true) :
    isWordChar c = true := by
  simp only [isSuffixLetter, Bool.or_eq_true, beq_iff_eq] at h
  rcases h with ((rfl | rfl) | rfl) | rfl <;> decide

lemma isWordChar_eq_false_of_isBlank {c : Char} (h : Text.isBlank c = true) :
    isWordChar c = false := by
  have hall : Text.blanks.all (!isWordChar ·) = true := by decide
  simpa using List.all_eq_true.mp hall c (by simpa [Text.isBlank] using h)

/-- A symbol begins with neither a blank nor a slash nor a part of a word. -/
lemma Symbol.exists_text (s : Symbol) : ∃ c cs, s.text.toList = c :: cs ∧
    isWordChar c = false ∧ Text.isBlank c = false ∧ c ≠ '/' := by
  cases s <;> exact ⟨_, _, rfl, by decide⟩

/-- Only `<<` has more than one character. -/
lemma Symbol.length_text (s : Symbol) : s.text.toList.length = 1 ∨ s = .shiftLeft := by
  cases s <;> decide

lemma Keyword.isWord_text (k : Keyword) : IsWord k.text.toList := by
  have hword : k.text.toList.all isWordChar = true := by cases k <;> decide
  have hstart : k.text.toList.head?.any isWordStart = true := by cases k <;> decide
  refine ⟨⟨fun hnil => ?_, List.all_eq_true.mp hword⟩, hstart⟩
  rw [hnil] at hstart
  cases hstart

/-! ### Digits and numerals -/

lemma isDigit_ten_iff {c : Char} {d : Nat} :
    IsDigit 10 c d ↔ c.isDigit = true ∧ hexDigitValue c = d := by
  unfold IsDigit
  constructor
  · rintro ⟨hd, rfl | rfl⟩ <;> interval_cases d <;> decide
  · rintro ⟨hc, rfl⟩
    obtain ⟨hfirst, hlast⟩ := isDigit_iff.mp hc
    exact forall_of_codes (P := fun c => hexDigitValue c < 10 ∧
      (c = (hexDigitValue c).digitChar ∨ c = (hexDigitValue c).digitChar.toUpper)) (by decide)
      hfirst hlast

lemma isDigit_sixteen_iff {c : Char} {d : Nat} :
    IsDigit 16 c d ↔ isHexDigit c = true ∧ hexDigitValue c = d := by
  unfold IsDigit
  constructor
  · rintro ⟨hd, rfl | rfl⟩ <;> interval_cases d <;> decide
  · rintro ⟨hc, rfl⟩
    have hcodes := fun first last hall (hc : first ≤ c.toNat ∧ c.toNat ≤ last) =>
      forall_of_codes (P := fun c => hexDigitValue c < 16 ∧ (c = (hexDigitValue c).digitChar ∨
        c = (hexDigitValue c).digitChar.toUpper)) hall hc.1 hc.2
    rcases isHexDigit_iff.mp hc with h | h | h
    · exact hcodes _ _ (by decide) h
    · exact hcodes _ _ (by decide) h
    · exact hcodes _ _ (by decide) h

lemma numeral_eq_ofDigits (base : Nat) (digits : List Char) :
    numeral base digits = Nat.ofDigits base (digits.map hexDigitValue).reverse := by
  rw [numeral, Nat.ofDigits_eq_foldr, List.foldr_reverse, List.foldl_map]
  simp [Nat.add_comm, Nat.mul_comm]

/-- Digits denote the number that they are read as. -/
lemma denotes_iff {base : Nat} {isDigitOf : Char → Bool} {digits : List Char} {n : Nat}
    (hbase : ∀ {c : Char} {d : Nat},
      IsDigit base c d ↔ isDigitOf c = true ∧ hexDigitValue c = d) :
    Denotes base digits n ↔ (∀ c ∈ digits, isDigitOf c = true ∨ c = '_') ∧
      digits.filter (· != '_') ≠ [] ∧ numeral base (digits.filter (· != '_')) = n := by
  have hvalues : ∀ {cs : List Char} {values : List Nat},
      List.Forall₂ (IsDigit base) cs values ↔
        (∀ c ∈ cs, isDigitOf c = true) ∧ cs.map hexDigitValue = values := by
    intro cs values
    induction cs generalizing values with
    | nil => cases values <;> simp
    | cons c cs ih => cases values <;> simp [hbase, ih, and_assoc, and_left_comm]
  simp only [Denotes, hvalues, numeral_eq_ofDigits]
  constructor
  · rintro ⟨values, hne, ⟨hdigits, rfl⟩, rfl⟩
    refine ⟨fun c hc => ?_, by simpa using hne, rfl⟩
    by_cases hunderscore : c = '_'
    · exact .inr hunderscore
    · exact .inl (hdigits c (List.mem_filter.mpr ⟨hc, by simpa using hunderscore⟩))
  · rintro ⟨hdigits, hne, rfl⟩
    refine ⟨_, by simpa using hne, ⟨fun c hc => ?_, rfl⟩, rfl⟩
    obtain ⟨hmem, hunderscore⟩ := List.mem_filter.mp hc
    exact (hdigits c hmem).resolve_right (by simpa using hunderscore)

lemma Numeral.value?_eq_some_iff {n : Numeral} {v : Nat} :
    n.value? = some v ↔ n.digits.filter (· != '_') ≠ [] ∧
      numeral n.base (n.digits.filter (· != '_')) = v := by
  unfold value?
  cases n.digits.filter (· != '_') with
  | nil => simp
  | cons d ds => simp

/-! ### Where a piece ends -/

lemma IsRun.append {text more : List Char} (h : IsRun text)
    (hmore : ∀ c ∈ more, isWordChar c = true) : IsRun (text ++ more) := by
  obtain ⟨hne, hall⟩ := h
  exact ⟨by simp [hne], List.forall_mem_append.mpr ⟨hall, hmore⟩⟩

lemma isRun_of_denotes {base n : Nat} {isDigitOf : Char → Bool} {digits suffix : List Char}
    (hbase : ∀ {c : Char} {d : Nat},
      IsDigit base c d ↔ isDigitOf c = true ∧ hexDigitValue c = d)
    (hword : ∀ {c : Char}, isDigitOf c = true → isWordChar c = true)
    (hvalue : Denotes base digits n) (hsuffix : ∀ c ∈ suffix, isSuffixLetter c = true) :
    IsRun (digits ++ suffix) := by
  obtain ⟨hdigits, hne, -⟩ := (denotes_iff hbase).mp hvalue
  refine IsRun.append ⟨fun hnil => hne (by simp [hnil]), fun c hc => ?_⟩
    fun c hc => isWordChar_of_isSuffixLetter (hsuffix c hc)
  rcases hdigits c hc with hdigit | rfl
  · exact hword hdigit
  · decide

/-- A token is a symbol or a run. -/
lemma Token.SpelledBy.symbol_or_isRun {t : Token} {text : List Char} (h : t.SpelledBy text) :
    (∃ s : Symbol, t = .symbol s ∧ text = s.text.toList) ∨ IsRun text := by
  cases h with
  | keyword k => exact .inr k.isWord_text.1
  | ident hword hkeyword => exact .inr hword.1
  | decimal hstart hvalue hsuffix =>
    exact .inr (isRun_of_denotes isDigit_ten_iff isWordChar_of_isDigit hvalue hsuffix)
  | hexadecimal hmark hvalue hsuffix =>
    refine .inr ⟨by simp, ?_⟩
    have hrun := isRun_of_denotes isDigit_sixteen_iff isWordChar_of_isHexDigit hvalue hsuffix
    rintro c (_ | ⟨_, _ | ⟨_, hc⟩⟩)
    · decide
    · rcases hmark with rfl | rfl <;> decide
    · exact hrun.2 c hc
  | symbol s => exact .inl ⟨s, rfl, rfl⟩

/-- A token starts with neither a blank nor a slash. -/
lemma Token.SpelledBy.head {t : Token} {c : Char} {cs text rest : List Char}
    (h : t.SpelledBy text) (hs : text ++ rest = c :: cs) : Text.isBlank c = false ∧ c ≠ '/' := by
  rcases h.symbol_or_isRun with ⟨s, -, rfl⟩ | hrun
  · obtain ⟨d, ds, hd, -, hblank, hslash⟩ := s.exists_text
    rw [hd] at hs
    cases hs
    exact ⟨hblank, hslash⟩
  · obtain ⟨d, ds, rfl⟩ := List.exists_cons_of_ne_nil hrun.1
    cases hs
    have hword := hrun.2 c (by simp)
    refine ⟨?_, ?_⟩
    · cases hblank : Text.isBlank c with
      | false => rfl
      | true =>
        rw [isWordChar_eq_false_of_isBlank hblank] at hword
        cases hword
    · rintro rfl
      cases hword

@[simp] lemma isTrivia_line_iff {cs : List Char} :
    IsTrivia ('/' :: '/' :: cs) ↔ '\n' ∉ cs := by
  refine ⟨fun h => ?_, .lineComment⟩
  cases h with
  | lineComment h => exact h

lemma isTrivia_block_iff {cs : List Char} : IsTrivia ('/' :: '*' :: cs) ↔
    ∃ body, cs = body ++ ['*', '/'] ∧ ¬ ['*', '/'] <:+: body := by
  constructor
  · intro h
    cases h with
    | blockComment h => exact ⟨_, rfl, h⟩
  · rintro ⟨body, rfl, h⟩
    exact .blockComment h

lemma IsTrivia.cases_head {text : List Char} (h : IsTrivia text) :
    ∃ c cs, text = c :: cs ∧ (Text.isBlank c = true ∧ cs = [] ∨ c = '/') := by
  cases h with
  | blank h => exact ⟨_, _, rfl, .inl ⟨h, rfl⟩⟩
  | lineComment h => exact ⟨_, _, rfl, .inr rfl⟩
  | blockComment h => exact ⟨_, _, rfl, .inr rfl⟩

/-- Everything that competes with a run is a run. -/
lemma IsCandidate.isRun {c : Char} {cs : List Char} (h : IsCandidate (c :: cs))
    (hc : isWordChar c = true) : IsRun (c :: cs) := by
  generalize htext : c :: cs = text at h
  cases h with
  | trivia h =>
    obtain ⟨d, ds, rfl, ⟨hblank, -⟩ | rfl⟩ := h.cases_head
    · cases htext
      rw [isWordChar_eq_false_of_isBlank hblank] at hc
      cases hc
    · cases htext
      cases hc
  | run h => exact h
  | symbol s =>
    obtain ⟨d, ds, hd, hword, -⟩ := s.exists_text
    cases htext.trans hd
    rw [hword] at hc
    cases hc

/-- Nothing competes with a blank. -/
lemma IsCandidate.eq_nil_of_isBlank {c : Char} {cs : List Char} (h : IsCandidate (c :: cs))
    (hc : Text.isBlank c = true) : cs = [] := by
  generalize htext : c :: cs = text at h
  cases h with
  | trivia h =>
    obtain ⟨d, ds, rfl, ⟨-, hnil⟩ | rfl⟩ := h.cases_head
    · cases htext
      exact hnil
    · cases htext
      cases hc
  | run h =>
    subst htext
    have hword := h.2 c (by simp)
    rw [isWordChar_eq_false_of_isBlank hc] at hword
    cases hword
  | symbol s =>
    obtain ⟨d, ds, hd, -, hblank, -⟩ := s.exists_text
    cases htext.trans hd
    rw [hblank] at hc
    cases hc

/-- Only comments compete with a comment. -/
lemma IsCandidate.isTrivia {cs : List Char} (h : IsCandidate ('/' :: cs)) :
    IsTrivia ('/' :: cs) := by
  generalize htext : '/' :: cs = text at h
  cases h with
  | trivia h => exact h
  | run h =>
    subst htext
    have := h.2 '/' (by simp)
    cases this
  | symbol s =>
    obtain ⟨d, ds, hd, -, -, hslash⟩ := s.exists_text
    cases htext.trans hd
    exact absurd rfl hslash

/-- Nothing but `<<` is longer than a symbol that it begins with. -/
lemma IsCandidate.shift {s : Symbol} {c : Char} {more : List Char}
    (h : IsCandidate (s.text.toList ++ c :: more)) : s.text.toList = ['<'] ∧ c = '<' := by
  obtain ⟨d, ds, hd, hword, hblank, hslash⟩ := s.exists_text
  generalize htext : s.text.toList ++ c :: more = text at h
  have hhead : text.head? = some d := by simp [← htext, hd]
  cases h with
  | trivia h =>
    obtain ⟨e, es, rfl, ⟨he, -⟩ | rfl⟩ := h.cases_head
    · cases hhead
      rw [hblank] at he
      cases he
    · cases hhead
      exact absurd rfl hslash
  | run h =>
    have := h.2 d (List.mem_of_head? hhead)
    rw [hword] at this
    cases this
  | symbol s' =>
    have hlength := congrArg List.length htext
    rw [List.length_append, List.length_cons] at hlength
    rcases s'.length_text with hone | rfl
    · rw [hd, hone, List.length_cons] at hlength
      omega
    · rcases s.length_text with hs | rfl
      · obtain ⟨e, he⟩ := List.length_eq_one_iff.mp hs
        rw [he] at htext ⊢
        cases htext
        exact ⟨rfl, rfl⟩
      · simp [Symbol.text] at htext

/-- Nothing is longer than a comment that is closed. -/
lemma not_isTrivia_of_closed {body : List Char} {c : Char} {more : List Char} :
    ¬ IsTrivia ('/' :: '*' :: (body ++ ['*', '/']) ++ c :: more) := by
  intro h
  obtain ⟨body', hbody, hfirst⟩ := isTrivia_block_iff.mp h
  apply hfirst
  have hsplit : body ++ ['*', '/'] ++ c :: more = body' ++ ['*', '/'] := hbody
  rcases List.append_eq_append_iff.mp hsplit with
    ⟨between, rfl, -⟩ | ⟨between, hbetween, hend⟩
  · exact ⟨body, between, by simp⟩
  · cases between with
    | nil => exact ⟨body, [], by simpa using hbetween⟩
    | cons d ds =>
      cases ds with
      | nil =>
        cases hend
        simpa using congrArg List.getLast? hbetween
      | cons e es => simp at hend

lemma Piece.SpelledBy.isCandidate {p : Piece} {text : List Char} (h : p.SpelledBy text) :
    IsCandidate text := by
  cases h with
  | trivia h => exact .trivia h
  | token h =>
    rcases h.symbol_or_isRun with ⟨s, rfl, rfl⟩ | hrun
    · exact .symbol s
    · exact .run hrun

/-- What competes with a piece as a longer match joins the next character to it. -/
lemma Piece.SpelledBy.joins {p : Piece} {text : List Char} {c : Char} {more : List Char}
    (h : p.SpelledBy text) (hlonger : IsCandidate (text ++ c :: more)) : Joins text c := by
  cases h with
  | trivia h =>
    cases h with
    | blank h => cases hlonger.eq_nil_of_isBlank h
    | lineComment h =>
      refine .lineComment ?_
      rintro rfl
      simpa using hlonger.isTrivia
    | blockComment h => exact absurd hlonger.isTrivia not_isTrivia_of_closed
  | token h =>
    rcases h.symbol_or_isRun with ⟨s, rfl, rfl⟩ | hrun
    · obtain ⟨hs, rfl⟩ := hlonger.shift
      rw [hs]
      exact .shift
    · obtain ⟨d, ds, rfl⟩ := List.exists_cons_of_ne_nil hrun.1
      exact .run hrun ((hlonger.isRun (hrun.2 d (by simp))).2 c (by simp))

/-- What joins to a piece makes a longer match. -/
lemma Piece.SpelledBy.isCandidate_append {p : Piece} {text : List Char} {c : Char}
    (h : p.SpelledBy text) (hjoins : Joins text c) : IsCandidate (text ++ [c]) := by
  cases hjoins with
  | run htext hc => exact .run (htext.append (by simpa using hc))
  | shift => exact .symbol .shiftLeft
  | lineComment hc =>
    have hline := h.isCandidate.isTrivia
    exact .trivia (isTrivia_line_iff.mpr (by simpa [hc.symm] using isTrivia_line_iff.mp hline))

/-- Whether a piece ends depends on the next character only. -/
theorem Piece.takes_iff {p : Piece} {text rest : List Char} : p.Takes text rest ↔
    p.SpelledBy text ∧ ∀ c, rest.head? = some c → ¬ Joins text c := by
  refine and_congr_right fun h =>
    ⟨fun hlongest c hc hjoins => ?_, fun hends more hne hmore hlonger => ?_⟩
  · obtain ⟨rest', rfl⟩ := List.head?_eq_some_iff.mp hc
    exact hlongest [c] (by simp) (by simp) (h.isCandidate_append hjoins)
  · obtain ⟨c, more, rfl⟩ := List.exists_cons_of_ne_nil hne
    obtain ⟨rest', rfl⟩ := hmore
    exact hends c rfl (h.joins hlonger)

end Interop.Source
