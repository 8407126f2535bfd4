/-
# The texts of types

The text of a type is read back as the type.  Its tokens are those that the type was read from:
they are written next to each other, apart from a space behind each comma, and they come apart again
since no two words meet and what stands behind a `<` starts a word.  So the texts of types are cut
into tokens by the rules that put them together, and the grammar is left to say what they stand for.

Main definition: `Spells` says that a text is cut into given tokens wherever no word goes on behind.

Main result: `TypeExpr.read_text`.
-/
import Interop.Proofs.Except
import Interop.Proofs.Source.Completeness.Types
import Interop.Proofs.Source.Lexing
import Interop.Proofs.Source.Soundness

namespace Interop.Source

/-- All tokens are such that can be written. -/
def Writable (ts : List Token) : Prop := ∀ t ∈ ts, ∃ text, t.SpelledBy text

/-- A text starts with a part of a word. -/
def StartsWord (text : List Char) : Prop := ∃ c cs, text = c :: cs ∧ isWordChar c = true

/-- No part of a word comes first in a text. -/
def StartsApart (text : List Char) : Prop := ∀ c, text.head? = some c → isWordChar c = false

/-- A text in front of another one is cut into tokens of its own. -/
def CutsOff (text : List Char) (ts : List Token) (rest : List Char) : Prop :=
  ∀ pieces, Row pieces rest → ∃ pieces', Row pieces' (text ++ rest) ∧
    rowTokens pieces' = ts ++ rowTokens pieces

/-- A text that starts with a word is cut into the given tokens, unless a word goes on behind it. -/
structure Spells (text : List Char) (ts : List Token) : Prop where
  starts : StartsWord text
  cutsOff : ∀ rest, StartsApart rest → CutsOff text ts rest

/-- What is written for a symbol between two words. -/
structure Separates (between : List Char) (s : Symbol) : Prop where
  apart : ∀ rest, StartsApart (between ++ rest)
  cutsOff : ∀ rest, StartsWord rest → CutsOff between [.symbol s] rest

variable {text text' between rest : List Char} {ts us : List Token} {s : Symbol}

lemma Row.writable {pieces : List (Piece × List Char)} (h : Row pieces text) :
    Writable (rowTokens pieces) := by
  induction h with
  | nil => simp [Writable, rowTokens]
  | @cons p text rest pieces htakes _ ih =>
    intro t ht
    rw [rowTokens_cons, List.mem_append] at ht
    rcases ht with ht | ht
    · cases htakes.1 with
      | trivia _ => cases ht
      | token htoken =>
        obtain rfl := List.mem_singleton.mp ht
        exact ⟨_, htoken⟩
    · exact ih t ht

/-! ### Putting texts together -/

lemma StartsWord.append (h : StartsWord text) (rest : List Char) : StartsWord (text ++ rest) := by
  obtain ⟨c, cs, rfl, hc⟩ := h
  exact ⟨c, cs ++ rest, rfl, hc⟩

lemma StartsWord.head?_ne (h : StartsWord text) : text.head? ≠ some '<' := by
  obtain ⟨c, cs, rfl, hc⟩ := h
  rintro ⟨⟩
  cases hc

lemma Symbol.startsApart (s : Symbol) (rest : List Char) :
    StartsApart (s.text.toList ++ rest) := by
  obtain ⟨c, cs, hs, hc, -⟩ := s.exists_text
  rw [hs]
  rintro _ ⟨⟩
  exact hc

lemma CutsOff.append (h : CutsOff text ts (text' ++ rest)) (h' : CutsOff text' us rest) :
    CutsOff (text ++ text') (ts ++ us) rest := by
  intro pieces hrow
  obtain ⟨pieces', hrow', htokens'⟩ := h' pieces hrow
  obtain ⟨all, hall, htokens⟩ := h pieces' hrow'
  rw [← List.append_assoc] at hall
  exact ⟨all, hall, by rw [htokens, htokens', List.append_assoc]⟩

lemma CutsOff.of_takes {p : Piece} (h : p.Takes text rest) :
    CutsOff text p.token?.toList rest := by
  intro pieces hrow
  exact ⟨(p, text) :: pieces, .cons h hrow, rowTokens_cons p text pieces⟩

lemma CutsOff.symbol (h : s ≠ .less ∨ rest.head? ≠ some '<') :
    CutsOff s.text.toList [.symbol s] rest :=
  .of_takes (Piece.takes_symbol h)

lemma Separates.alone (s : Symbol) : Separates s.text.toList s where
  apart := s.startsApart
  cutsOff _ hrest := .symbol (.inr hrest.head?_ne)

/-- A symbol with a space behind it. -/
lemma Separates.spaced (s : Symbol) : Separates (s.text.toList ++ [' ']) s where
  apart rest := by
    rw [List.append_assoc]
    exact s.startsApart _
  cutsOff rest _ := by
    have hspace : CutsOff [' '] [] rest := .of_takes (Piece.takes_blank (by decide) rest)
    exact CutsOff.append (.symbol (.inr (by simp))) hspace

namespace Spells

lemma word {t : Token} (h : t.SpelledBy text) (hrun : IsRun text) : Spells text [t] where
  starts := by
    obtain ⟨c, cs, rfl⟩ := List.exists_cons_of_ne_nil hrun.1
    exact ⟨c, cs, rfl, hrun.2 c List.mem_cons_self⟩
  cutsOff _ hrest := .of_takes (Piece.takes_iff.mpr ⟨.token h, not_joins_of_isRun hrun hrest⟩)

lemma close (h : Spells text ts) (hs : s ≠ .less) :
    Spells (text ++ s.text.toList) (ts ++ [.symbol s]) where
  starts := h.starts.append _
  cutsOff rest _ := (h.cutsOff _ (s.startsApart rest)).append (.symbol (.inl hs))

lemma join (h : Spells text ts) (hbetween : Separates between s) (h' : Spells text' us) :
    Spells (text ++ (between ++ text')) (ts ++ .symbol s :: us) where
  starts := h.starts.append _
  cutsOff rest hrest := by
    have hsecond : CutsOff (between ++ text') ([.symbol s] ++ us) rest :=
      (hbetween.cutsOff _ (h'.starts.append rest)).append (h'.cutsOff rest hrest)
    refine CutsOff.append ?_ hsecond
    rw [List.append_assoc]
    exact h.cutsOff _ (hbetween.apart _)

/-- A text without anything behind it has its tokens. -/
lemma exists_tokens {text : String} (h : Spells text.toList ts) :
    ∃ ls, Lexeme.ofText text = .ok ls ∧ ls.map (·.token) = ts ++ [.endOfFile] := by
  obtain ⟨pieces, hrow, htokens⟩ := h.cutsOff [] (by simp [StartsApart]) [] .nil
  rw [List.append_nil] at hrow
  refine ⟨_, Lexeme.ofCharsAt_eq_ok_iff.mpr ⟨pieces, hrow, rfl⟩, ?_⟩
  rw [Lexeme.map_token_ofRow, htokens]
  simp [rowTokens]

end Spells

/-! ### Names and types -/

namespace Writable

lemma left (h : Writable (ts ++ us)) : Writable ts := fun t ht => h t (List.mem_append_left us ht)

lemma right (h : Writable (ts ++ us)) : Writable us := fun t ht => h t (List.mem_append_right ts ht)

lemma tail {t : Token} (h : Writable (t :: ts)) : Writable ts :=
  fun t ht => h t (List.mem_cons_of_mem _ ht)

end Writable

lemma Ident.spells {name : String} (h : Ident ts name) (hts : Writable ts) :
    Spells name.toList ts := by
  obtain ⟨⟩ := h
  obtain ⟨text, htext⟩ := hts (.ident name) List.mem_cons_self
  have hword : text = name.toList ∧ IsRun text := by
    cases htext with
    | ident hword _ => exact ⟨String.toList_ofList.symm, hword.1⟩
  rw [← hword.1]
  exact .word htext hword.2

lemma DottedName.Derives.spells {name : DottedName} (h : Derives ts name) (hts : Writable ts) :
    Spells name.text.toList ts := by
  obtain ⟨hnames⟩ := h
  rw [text, String.toList_intercalate]
  induction hnames with
  | one honly => simpa using honly.spells hts
  | @cons ts us name names hname htail ih =>
    have hrest := ih hts.right.tail
    cases names with
    | nil => cases htail
    | cons _ _ => exact (hname.spells hts.left).join (.alone .dot) hrest

namespace TypeExpr

mutual

/-- A type is written by the tokens that it is derived from. -/
lemma spells : ∀ (t : TypeExpr) {ts : List Token}, Derives ts t → Writable ts →
    Spells t.text.toList ts
  -- the type leaves one rule of the grammar in each case, by which its tokens are split up
  | .void, ts, h, hts => by
    obtain ⟨⟨⟨⟩⟩⟩ := h
    exact .word (.keyword .voidKw) (Keyword.isWord_text .voidKw).1
  | .primitive p, ts, h, hts => by
    obtain ⟨⟨⟨⟩⟩⟩ := h
    exact (Ident.mk p.keyword).spells hts
  | .string, ts, h, hts => by
    obtain ⟨⟨⟨⟩⟩⟩ := h
    exact (Ident.mk "string").spells hts
  | .named name, ts, h, hts => by
    obtain ⟨⟨hhead⟩⟩ := h
    cases hhead with
    | named hname _ => exact hname.spells hts
  | .array element, ts, h, hts => by
    obtain ⟨⟨⟨⟩⟩ | helement⟩ := h
    have hspells := spells element (.plain helement) hts.left
    have hopened := hspells.close (s := .leftBracket) (by simp)
    have hclosed := hopened.close (s := .rightBracket) (by simp)
    rw [text, String.toList_append]
    simpa [Symbol.text] using hclosed
  | .generic name args, ts, h, hts => by
    obtain ⟨⟨hhead⟩⟩ := h
    cases hhead with
    | generic hname hargs =>
      have hname := hname.spells hts.left.left
      have hargs := spells_texts args hargs hts.left.right.tail
      have hclosed := (hname.join (.alone .less) hargs).close (s := .greater) (by simp)
      rw [text, String.toList_append, String.toList_append, String.toList_append]
      simpa [Symbol.text] using hclosed
  | .nullable inner, ts, h, hts => by
    obtain ⟨⟨⟨⟩⟩⟩ | ⟨hinner⟩ := h
    have hspells := spells inner (.plain hinner) hts.left
    rw [text, String.toList_append]
    exact hspells.close (s := .question) (by simp)

lemma spells_texts : ∀ (args : List TypeExpr) {ts : List Token},
    Separated (.symbol .comma) Derives ts args → Writable ts →
    Spells (", ".intercalate (texts args)).toList ts
  | [], ts, h, hts => by cases h
  | [t], ts, h, hts => by
    obtain ⟨ht⟩ | ⟨-, ⟨⟩⟩ := h
    simpa [texts, String.toList_intercalate] using spells t ht hts
  | t :: t' :: args, ts, h, hts => by
    obtain - | ⟨ht, hargs⟩ := h
    have hspells := spells_texts (t' :: args) hargs hts.right.tail
    rw [String.toList_intercalate] at hspells ⊢
    exact (spells t ht hts.left).join (.spaced .comma) hspells

end

/-- The text of a type that was read is cut into the tokens that it was read from, and these are
read as the same type again, up to the end of the file. -/
theorem read_text {source : String} {ls : List Lexeme} {c c' : Cursor} {t : TypeExpr}
    (hls : Lexeme.ofText source = .ok ls) (hc : c.rest <:+ ls) (hread : read c = .ok (t, c')) :
    ∃ ls', Lexeme.ofText t.text = .ok ls' ∧
      ∃ u e, read (.ofLexemes ls') = .ok (u, e) ∧ e.tokens = [.endOfFile] ∧
        u.withoutSpans = t.withoutSpans := by
  obtain ⟨ts, hts, heof, hderives⟩ := read_soundAt c t c' hread
  -- the tokens stand in a text themselves, so that they can be written
  have hwritable : Writable ts := by
    intro token htoken
    obtain ⟨pieces, hrow, rfl⟩ := Lexeme.ofCharsAt_eq_ok_iff.mp hls
    have hmem : token ∈ c.tokens := hts ▸ List.mem_append_left _ htoken
    have hall : token ∈ (Lexeme.ofRow 0 pieces).map (·.token) :=
      (hc.map (·.token)).subset hmem
    rw [Lexeme.map_token_ofRow, List.mem_append, List.mem_singleton] at hall
    rcases hall with hall | rfl
    · exact hrow.writable token hall
    · exact absurd htoken heof
  have hspells := spells t.withoutSpans hderives hwritable
  rw [text_withoutSpans] at hspells
  obtain ⟨ls', hls', htokens⟩ := hspells.exists_tokens
  obtain ⟨u, e, hu, he, hsame⟩ := read_reads hderives (by simp [Ends]) (.ofLexemes ls') htokens
  exact ⟨ls', hls', u, e, hu, he, hsame⟩

/-- Types nested in one another, written with other spaces than in the text of the type. -/
theorem read_text_nested :
    ∃ ls t c', Lexeme.ofText "A <b. C<int[ ]>,string?> [][]?" = .ok ls ∧
      read (.ofLexemes ls) = .ok (t, c') ∧ t.text = "A<b.C<int[]>, string?>[][]?" ∧
      ∃ ls', Lexeme.ofText "A<b.C<int[]>, string?>[][]?" = .ok ls' ∧
        ∃ u e, read (.ofLexemes ls') = .ok (u, e) ∧ e.tokens = [.endOfFile] ∧
          u.withoutSpans = t.withoutSpans := by
  have hrun : (Lexeme.ofText "A <b. C<int[ ]>,string?> [][]?").toOption.any (fun ls =>
      (read (.ofLexemes ls)).toOption.any fun read =>
        decide (read.1.text = "A<b.C<int[]>, string?>[][]?")) = true := by
    decide +kernel
  obtain ⟨ls, hls, hread⟩ := exists_of_toOption_any hrun
  obtain ⟨⟨t, c'⟩, hread, htext⟩ := exists_of_toOption_any hread
  have htext : t.text = "A<b.C<int[]>, string?>[][]?" := of_decide_eq_true htext
  have hagain := read_text hls List.suffix_rfl hread
  rw [htext] at hagain
  exact ⟨ls, t, c', hls, hread, htext, hagain⟩

end TypeExpr

end Interop.Source
