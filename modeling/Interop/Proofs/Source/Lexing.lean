/-
# Lexing

A text has tokens exactly if it is a row of pieces of the lexicon, each ended by longest match.  The
tokens with their spans are read off the row, and what is said of them here is shown along the row:
they stand in order, nothing but trivia is left out, and the text under a span spells one token.
Token by token, with a space in between, a text has the same tokens.

Main definitions:
* `Row` is the decomposition of a text;
* `LaidOut` is how the tokens of a text stand in it.

Main results:
* `Lexeme.ofCharsAt_eq_ok_iff`: the lexer finds the row;
* `Lexeme.tokens_of_text`: when there are tokens, and how they stand in the text.
-/
import Interop.Proofs.Source.Cutting

namespace Interop.Source

/-! ### Rows of pieces -/

/-- A text put together from pieces, each of which ends where the next one begins. -/
inductive Row : List (Piece × List Char) → List Char → Prop
  | nil : Row [] []
  | cons {p : Piece} {text rest : List Char} {pieces : List (Piece × List Char)}
    (h : p.Takes text rest) (hrest : Row pieces rest) :
    Row ((p, text) :: pieces) (text ++ rest)

/-- The tokens of a row whose first character stands at `start`, the last of them the end of the
file. -/
def Lexeme.ofRow (start : Nat) : List (Piece × List Char) → List Lexeme
  | [] => [⟨.endOfFile, ⟨start, start⟩⟩]
  | (.trivia, text) :: pieces => ofRow (start + text.length) pieces
  | (.token t, text) :: pieces =>
    ⟨t, ⟨start, start + text.length⟩⟩ :: ofRow (start + text.length) pieces

/-- The token that a piece is, if it is one. -/
def Piece.token? : Piece → Option Token
  | .trivia => none
  | .token t => some t

/-- The tokens of a row. -/
def rowTokens (pieces : List (Piece × List Char)) : List Token :=
  pieces.filterMap (·.1.token?)

lemma rowTokens_cons (p : Piece) (text : List Char) (pieces : List (Piece × List Char)) :
    rowTokens ((p, text) :: pieces) = p.token?.toList ++ rowTokens pieces := by
  cases p <;> rfl

lemma Lexeme.map_token_ofRow (pieces : List (Piece × List Char)) (start : Nat) :
    (ofRow start pieces).map (·.token) = rowTokens pieces ++ [.endOfFile] := by
  induction pieces generalizing start with
  | nil => rfl
  | cons piece pieces ih =>
    obtain ⟨p, text⟩ := piece
    cases p with
    | trivia => exact ih _
    | token t => exact congrArg (t :: ·) (ih _)

lemma Token.SpelledBy.ne_nil {t : Token} {text : List Char} (h : t.SpelledBy text) :
    text ≠ [] := by
  rcases h.symbol_or_isRun with ⟨s, -, rfl⟩ | hrun
  · obtain ⟨c, cs, hs, -⟩ := s.exists_text
    simp [hs]
  · exact hrun.1

lemma Piece.Takes.ne_nil {p : Piece} {text rest : List Char} (h : p.Takes text rest) :
    text ≠ [] := by
  cases h.1 with
  | trivia h =>
    obtain ⟨c, cs, rfl, -⟩ := h.cases_head
    simp
  | token h => exact h.ne_nil

lemma Row.cons_of_cut {c : Char} {cs : List Char} {p : Piece} {cut : Cut (c :: cs)}
    {pieces : List (Piece × List Char)} (h : Row pieces cut.rest)
    (hcut : Piece.cut c cs = .ok (p, cut)) : Row ((p, cut.text) :: pieces) (c :: cs) := by
  have hrow := Row.cons (Piece.takes_of_cut hcut) h
  rwa [cut.text_append_rest] at hrow

/-- What the lexer reads is a row. -/
lemma Lexeme.exists_row {start : Nat} {s : List Char} {ls : List Lexeme}
    (h : ofCharsAt start s = .ok ls) : ∃ pieces, Row pieces s ∧ ls = ofRow start pieces := by
  induction start, s using ofCharsAt.induct generalizing ls with
  | case1 start =>
    rw [ofCharsAt] at h
    cases h
    exact ⟨[], .nil, rfl⟩
  | case2 start c cs fault n hcut =>
    rw [ofCharsAt] at h
    simp only [hcut] at h
    cases h
  | case3 start c cs cut hlt stop hcut =>
    rename_i ih
    rw [ofCharsAt] at h
    simp only [hcut] at h
    obtain ⟨pieces, hrow, rfl⟩ := ih h
    exact ⟨(.trivia, cut.text) :: pieces, hrow.cons_of_cut hcut, rfl⟩
  | case4 start c cs cut hlt stop t hcut =>
    rename_i ih
    rw [ofCharsAt] at h
    simp only [hcut] at h
    cases hrest : ofCharsAt (start + cut.text.length) cut.rest with
    | error e =>
      rw [hrest] at h
      cases h
    | ok ls' =>
      obtain ⟨pieces, hrow, rfl⟩ := ih hrest
      rw [hrest] at h
      cases h
      exact ⟨(.token t, cut.text) :: pieces, hrow.cons_of_cut hcut, rfl⟩

/-- A row is read by the lexer. -/
lemma Lexeme.ofCharsAt_of_row {pieces : List (Piece × List Char)} {s : List Char}
    (h : Row pieces s) (start : Nat) : ofCharsAt start s = .ok (ofRow start pieces) := by
  induction h generalizing start with
  | nil =>
    rw [ofCharsAt]
    rfl
  | cons h hrest ih =>
    rename_i p text rest pieces
    obtain ⟨c, cs, hcs⟩ := List.exists_cons_of_ne_nil
      (List.append_ne_nil_of_left_ne_nil h.ne_nil rest)
    obtain ⟨cut, hcut, rfl, rfl⟩ := Piece.exists_cut h hcs
    rw [hcs, ofCharsAt]
    simp only [hcut]
    cases p with
    | trivia => exact ih _
    | token t =>
      simp only [ih]
      rfl

/-- The lexer finds the row of pieces that a text is. -/
theorem Lexeme.ofCharsAt_eq_ok_iff {start : Nat} {s : List Char} {ls : List Lexeme} :
    ofCharsAt start s = .ok ls ↔ ∃ pieces, Row pieces s ∧ ls = ofRow start pieces := by
  constructor
  · exact exists_row
  · rintro ⟨pieces, hrow, rfl⟩
    exact ofCharsAt_of_row hrow start

/-! ### Tokens by their texts -/

/-- What spells a token spells no other one. -/
lemma Token.SpelledBy.unique {t t' : Token} {text : List Char} (h : t.SpelledBy text)
    (h' : t'.SpelledBy text) : t = t' := by
  obtain ⟨c, cs, hcs⟩ := List.exists_cons_of_ne_nil h.ne_nil
  have htakes : ∀ {t : Token}, t.SpelledBy text → (Piece.token t).Takes text [] := by
    intro t h
    exact Piece.takes_iff.mpr ⟨.token h, by simp⟩
  obtain ⟨cut, hcut, -⟩ := Piece.exists_cut (htakes h) ((List.append_nil text).trans hcs)
  obtain ⟨cut', hcut', -⟩ := Piece.exists_cut (htakes h') ((List.append_nil text).trans hcs)
  rw [hcut] at hcut'
  cases hcut'
  rfl

/-- A token ends before anything that is neither part of a word nor a `<`. -/
lemma Piece.takes_token {t : Token} {text rest : List Char} (h : t.SpelledBy text)
    (hrest : ∀ c, rest.head? = some c → isWordChar c = false ∧ c ≠ '<') :
    (token t).Takes text rest := by
  refine takes_iff.mpr ⟨.token h, ?_⟩
  rcases h.symbol_or_isRun with ⟨s, -, rfl⟩ | hrun
  · exact not_joins_symbol (.inr fun hhead => (hrest '<' hhead).2 rfl)
  · exact not_joins_of_isRun hrun fun c hc => (hrest c hc).1

/-- Texts of tokens with single spaces in between are a row with just these tokens. -/
lemma exists_row_intercalate {ls : List Lexeme} {text : Lexeme → List Char}
    (h : ∀ l ∈ ls, l.token.SpelledBy (text l)) :
    ∃ pieces, Row pieces ([' '].intercalate (ls.map text)) ∧
      rowTokens pieces = ls.map (·.token) := by
  induction ls with
  | nil => exact ⟨[], .nil, rfl⟩
  | cons l ls ih =>
    obtain ⟨hl, hls⟩ := List.forall_mem_cons.mp h
    obtain ⟨pieces, hrow, htokens⟩ := ih hls
    cases ls with
    | nil =>
      have hrow : Row [(.token l.token, text l)] (text l ++ []) :=
        .cons (Piece.takes_token hl (by simp)) .nil
      rw [List.append_nil] at hrow
      exact ⟨_, by simpa using hrow, rfl⟩
    | cons l' ls =>
      have hspace : Row ((.trivia, [' ']) :: pieces)
          ([' '] ++ [' '].intercalate ((l' :: ls).map text)) :=
        .cons (Piece.takes_blank (by decide) _) hrow
      have hall : Row ((.token l.token, text l) :: (.trivia, [' ']) :: pieces)
          (text l ++ ([' '] ++ [' '].intercalate ((l' :: ls).map text))) :=
        .cons (Piece.takes_token hl (by simp [isWordChar])) hspace
      exact ⟨(.token l.token, text l) :: (.trivia, [' ']) :: pieces, by simpa using hall,
        congrArg (l.token :: ·) htokens⟩

/-! ### Where the tokens stand -/

/-- The characters under a span. -/
def under (s : List Char) (span : Span) : List Char := s.extract span.start span.stop

/-- How the tokens of a text from `start` on, the end of the file apart, stand in it. -/
structure LaidOut (s : List Char) (start : Nat) (ls : List Lexeme) : Prop where
  fromStart : ∀ l ∈ ls, start ≤ l.span.start
  nonempty : ∀ l ∈ ls, l.span.start < l.span.stop
  inText : ∀ l ∈ ls, l.span.stop ≤ s.length
  inOrder : ls.Pairwise fun a b => a.span.stop ≤ b.span.start
  /-- The text under a span spells the token, and no other one. -/
  spelled : ∀ l ∈ ls, ∀ t : Token, t.SpelledBy (under s l.span) ↔ t = l.token
  /-- Each character belongs to a token, or to white space or a comment beside all tokens. -/
  covered : ∀ i, start ≤ i → i < s.length →
    (∃ l ∈ ls, l.span.start ≤ i ∧ i < l.span.stop) ∨
    ∃ gap : Span, (gap.start ≤ i ∧ i < gap.stop) ∧ (start ≤ gap.start ∧ gap.stop ≤ s.length) ∧
      IsTrivia (under s gap) ∧ ∀ l ∈ ls, l.span.stop ≤ gap.start ∨ gap.stop ≤ l.span.start

lemma under_append (before text rest : List Char) :
    under (before ++ (text ++ rest)) ⟨before.length, before.length + text.length⟩ = text := by
  simp [under]

namespace LaidOut

variable {before text rest : List Char} {ls : List Lexeme}

lemma nil (s : List Char) : LaidOut s s.length [] where
  fromStart := by simp
  nonempty := by simp
  inText := by simp
  inOrder := .nil
  spelled := by simp
  covered i hstart hstop := absurd hstart (by omega)

/-- White space and comments before the first token. -/
lemma trivia (htrivia : IsTrivia text)
    (h : LaidOut (before ++ (text ++ rest)) (before.length + text.length) ls) :
    LaidOut (before ++ (text ++ rest)) before.length ls where
  fromStart l hl := le_trans (Nat.le_add_right ..) (h.fromStart l hl)
  nonempty := h.nonempty
  inText := h.inText
  inOrder := h.inOrder
  spelled := h.spelled
  covered i hstart hstop := by
    by_cases hi : i < before.length + text.length
    · refine .inr ⟨⟨before.length, before.length + text.length⟩, ⟨hstart, hi⟩, ⟨Nat.le_refl _, ?_⟩,
        ?_, fun l hl => .inr (h.fromStart l hl)⟩
      · simp
      · rw [under_append]
        exact htrivia
    · rcases h.covered i (Nat.le_of_not_lt hi) hstop with
        hcovers | ⟨gap, hin, ⟨hfrom, hto⟩, hbeside⟩
      · exact .inl hcovers
      · exact .inr ⟨gap, hin, ⟨le_trans (Nat.le_add_right ..) hfrom, hto⟩, hbeside⟩

/-- One more token before the others. -/
lemma token {t : Token} (htoken : t.SpelledBy text)
    (h : LaidOut (before ++ (text ++ rest)) (before.length + text.length) ls) :
    LaidOut (before ++ (text ++ rest)) before.length
      (⟨t, ⟨before.length, before.length + text.length⟩⟩ :: ls) where
  fromStart := List.forall_mem_cons.mpr
    ⟨Nat.le_refl _, fun l hl => le_trans (Nat.le_add_right ..) (h.fromStart l hl)⟩
  nonempty := by
    have hpos := List.length_pos_iff.mpr htoken.ne_nil
    exact List.forall_mem_cons.mpr ⟨Nat.lt_add_of_pos_right hpos, h.nonempty⟩
  inText := List.forall_mem_cons.mpr ⟨by simp, h.inText⟩
  inOrder := List.pairwise_cons.mpr ⟨h.fromStart, h.inOrder⟩
  spelled := by
    refine List.forall_mem_cons.mpr ⟨fun t' => ?_, h.spelled⟩
    rw [under_append]
    constructor
    · intro h'
      exact h'.unique htoken
    · rintro rfl
      exact htoken
  covered i hstart hstop := by
    by_cases hi : i < before.length + text.length
    · exact .inl ⟨_, List.mem_cons_self, hstart, hi⟩
    · rcases h.covered i (Nat.le_of_not_lt hi) hstop with
        ⟨l, hl, hcovers⟩ | ⟨gap, hin, ⟨hfrom, hto⟩, htrivia, hbeside⟩
      · exact .inl ⟨l, List.mem_cons_of_mem _ hl, hcovers⟩
      · exact .inr ⟨gap, hin, ⟨le_trans (Nat.le_add_right ..) hfrom, hto⟩, htrivia,
          List.forall_mem_cons.mpr ⟨.inl hfrom, hbeside⟩⟩

/-- The tokens of a row stand in its text. -/
lemma exists_ofRow {pieces : List (Piece × List Char)} {rest : List Char} (h : Row pieces rest)
    (before : List Char) : ∃ front,
      Lexeme.ofRow before.length pieces = front ++
        [⟨.endOfFile, ⟨(before ++ rest).length, (before ++ rest).length⟩⟩] ∧
      LaidOut (before ++ rest) before.length front := by
  induction h generalizing before with
  | nil => 
    rw [List.append_nil]
    exact ⟨[], rfl, nil before⟩
  | cons h hrest ih =>
    rename_i p text rest pieces
    obtain ⟨front, hfront, hlaid⟩ := ih (before ++ text)
    rw [List.append_assoc, List.length_append] at hfront hlaid
    cases h.1 with
    | trivia htrivia => exact ⟨front, hfront, hlaid.trivia htrivia⟩
    | token htoken =>
      exact ⟨_ :: front, congrArg (_ :: ·) hfront, hlaid.token htoken⟩

end LaidOut

/-- When a text has tokens, and how they stand in it: the last one is the end of the file, the
others are laid out in the text, and their texts with single spaces in between have the same
tokens. -/
theorem Lexeme.tokens_of_text (source : String) :
    ((∃ ls, ofText source = .ok ls) ↔ ∃ pieces, Row pieces source.toList) ∧
    ∀ ls, ofText source = .ok ls → ∃ front,
      ls = front ++ [⟨.endOfFile, ⟨source.length, source.length⟩⟩] ∧
      (∀ l ∈ front, l.token ≠ .endOfFile) ∧ LaidOut source.toList 0 front ∧
      ∃ again, ofText (" ".intercalate
          (front.map fun l => String.ofList (under source.toList l.span))) = .ok again ∧
        again.map (·.token) = ls.map (·.token) := by
  refine ⟨?_, fun ls h => ?_⟩
  · constructor
    · rintro ⟨ls, h⟩
      obtain ⟨pieces, hrow, -⟩ := ofCharsAt_eq_ok_iff.mp h
      exact ⟨pieces, hrow⟩
    · rintro ⟨pieces, hrow⟩
      exact ⟨_, ofCharsAt_eq_ok_iff.mpr ⟨pieces, hrow, rfl⟩⟩
  · obtain ⟨pieces, hrow, rfl⟩ := ofCharsAt_eq_ok_iff.mp h
    obtain ⟨front, hfront, hlaid⟩ := LaidOut.exists_ofRow hrow []
    have hspelled : ∀ l ∈ front, l.token.SpelledBy (under source.toList l.span) :=
      fun l hl => (hlaid.spelled l hl l.token).mpr rfl
    obtain ⟨pieces', hrow', htokens⟩ := exists_row_intercalate hspelled
    refine ⟨front, hfront, fun l hl heof => ?_, hlaid, ofRow 0 pieces', ?_, ?_⟩
    · have := hspelled l hl
      rw [heof] at this
      cases this
    · refine ofCharsAt_eq_ok_iff.mpr ⟨pieces', ?_, rfl⟩
      rw [String.toList_intercalate, List.map_map]
      simpa [Function.comp_def] using hrow'
    · have hls : ofRow 0 pieces = _ := hfront
      rw [map_token_ofRow, htokens, hls, List.map_append]
      rfl

/-- A hexadecimal number with an underscore and a suffix, behind which a comment starts. -/
theorem Lexeme.tokens_of_text_hexadecimal :
    ∃ ls, ofText "a=0x1_Fu//" = .ok ls ∧
      ls.map (·.token) = [.ident "a", .symbol .assign, .integer 31, .endOfFile] ∧
      ∃ front, ls = front ++ [⟨.endOfFile, ⟨10, 10⟩⟩] ∧ LaidOut "a=0x1_Fu//".toList 0 front := by
  have hread : (ofText "a=0x1_Fu//").toOption.any (fun ls => decide
      (ls.map (·.token) = [.ident "a", .symbol .assign, .integer 31, .endOfFile])) = true := by
    decide +kernel
  cases hls : ofText "a=0x1_Fu//" with
  | error e =>
    rw [hls] at hread
    cases hread
  | ok ls =>
    rw [hls] at hread
    obtain ⟨front, hfront, -, hlaid, -⟩ := (tokens_of_text "a=0x1_Fu//").2 ls hls
    exact ⟨ls, rfl, of_decide_eq_true hread, front, hfront, hlaid⟩

end Interop.Source
