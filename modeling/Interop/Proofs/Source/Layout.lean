/-
# Layout

White space and comments may be put in front of a text and behind any of its tokens: the pieces of
the text stay the same, and so do its tokens.  A token goes on with neither a blank nor a slash, and
what is put in ends before whatever comes next.  At the end of the file there is one exception: a
line comment without its newline takes in all that is added there.

Main definitions:
* `padded` is a text with something put in at each offset;
* `Padding` is what may be put in, and `EndsOpen` says of a text that it ends in a line comment.

Main result: `Lexeme.exists_tokens_padded`.
-/
import Interop.Proofs.Source.Lexing

namespace Interop.Source

/-- White space, closed block comments, and line comments with their newlines, in any number. -/
inductive Padding : List Char → Prop
  | nil : Padding []
  | blank {c : Char} {w : List Char} (h : Text.isBlank c = true) (hrest : Padding w) :
    Padding (c :: w)
  | blockComment {body w : List Char} (h : ¬ ['*', '/'] <:+: body) (hrest : Padding w) :
    Padding ('/' :: '*' :: (body ++ ['*', '/']) ++ w)
  | lineComment {body w : List Char} (h : '\n' ∉ body) (hrest : Padding w) :
    Padding ('/' :: '/' :: body ++ '\n' :: w)

/-- A text whose first character stands at `n`, with `pad k` put in at each offset `k`. -/
def padded (pad : Nat → List Char) : Nat → List Char → List Char
  | n, [] => pad n
  | n, c :: cs => pad n ++ c :: padded pad (n + 1) cs

/-- A text ends in a line comment without a newline. -/
def EndsOpen (s : List Char) : Prop :=
  ∃ pieces body, Row (pieces ++ [(.trivia, '/' :: '/' :: body)]) s

variable {pad : Nat → List Char}

lemma Padding.head? {w : List Char} (h : Padding w) :
    ∀ c, w.head? = some c → Text.isBlank c = true ∨ c = '/' := by
  intro c hc
  cases h with
  | nil => cases hc
  | blank hblank _ =>
    cases hc
    exact .inl hblank
  | blockComment _ _ =>
    cases hc
    exact .inr rfl
  | lineComment _ _ =>
    cases hc
    exact .inr rfl

/-- Padding in front of a row adds pieces, and no token. -/
lemma Padding.exists_row {w : List Char} (hw : Padding w) {pieces : List (Piece × List Char)}
    {rest : List Char} (h : Row pieces rest) :
    ∃ pieces', Row pieces' (w ++ rest) ∧ rowTokens pieces' = rowTokens pieces := by
  induction hw with
  | nil => exact ⟨pieces, h, rfl⟩
  | blank hblank _ ih =>
    obtain ⟨pieces', hrow, htokens⟩ := ih
    exact ⟨(.trivia, [_]) :: pieces', .cons (Piece.takes_blank hblank _) hrow, htokens⟩
  | blockComment hfirst _ ih =>
    obtain ⟨pieces', hrow, htokens⟩ := ih
    have hcomment := Row.cons (Piece.takes_blockComment hfirst _) hrow
    rw [← List.append_assoc] at hcomment
    exact ⟨_, hcomment, htokens⟩
  | lineComment hline _ ih =>
    obtain ⟨pieces', hrow, htokens⟩ := ih
    have hnewline := Row.cons (Piece.takes_blank (c := '\n') (by decide) _) hrow
    have hcomment := Row.cons (Piece.takes_lineComment hline (by simp)) hnewline
    exact ⟨(.trivia, '/' :: '/' :: _) :: (.trivia, ['\n']) :: pieces', by simpa using hcomment,
      htokens⟩

lemma Piece.Takes.of_head?_eq {p : Piece} {text rest rest' : List Char} (h : p.Takes text rest)
    (hhead : rest'.head? = rest.head?) : p.Takes text rest' := by
  rw [takes_iff, hhead]
  exact takes_iff.mp h

lemma head?_padded {n : Nat} (h : pad n = []) (s : List Char) :
    (padded pad n s).head? = s.head? := by
  cases s <;> simp [padded, h]

lemma head?_padded_of_ne {n : Nat} (h : pad n ≠ []) (s : List Char) :
    (padded pad n s).head? = (pad n).head? := by
  cases s <;> simp [padded, List.head?_append_of_ne_nil _ h]

/-- Where nothing is put in, a text stays as it is. -/
lemma padded_append {text rest : List Char} (htext : text ≠ []) {n : Nat}
    (hpad : ∀ k, n < k → k < n + text.length → pad k = []) :
    padded pad n (text ++ rest) = pad n ++ (text ++ padded pad (n + text.length) rest) := by
  induction text generalizing n with
  | nil => exact absurd rfl htext
  | cons c cs ih =>
    rw [List.cons_append, padded]
    cases cs with
    | nil => simp
    | cons d ds =>
      have hinner := ih (by simp) (n := n + 1) fun k hk hk' =>
        hpad k (by omega) (by simp at hk' ⊢; omega)
      have hnext : pad (n + 1) = [] := hpad (n + 1) (by omega) (by simp)
      rw [hinner, hnext]
      simp [Nat.add_assoc, Nat.add_comm 1]

/-! ### Where tokens end -/

lemma mem_ofRow_cons {n : Nat} {p : Piece} {text : List Char}
    {pieces : List (Piece × List Char)} {l : Lexeme}
    (h : l ∈ Lexeme.ofRow n ((p, text) :: pieces)) :
    (p = .token l.token ∧ l.span.stop = n + text.length) ∨
      l ∈ Lexeme.ofRow (n + text.length) pieces := by
  cases p with
  | trivia => exact .inr h
  | token t =>
    rcases List.mem_cons.mp h with rfl | hmem
    · exact .inl ⟨rfl, rfl⟩
    · exact .inr hmem

lemma stop_of_mem_ofRow {pieces : List (Piece × List Char)} {s : List Char} (h : Row pieces s) :
    ∀ {n : Nat} {l : Lexeme}, l ∈ Lexeme.ofRow n pieces →
      l.token = .endOfFile ∧ l.span.stop = n + s.length ∨ n < l.span.stop := by
  induction h with
  | nil =>
    intro n l hl
    cases List.mem_singleton.mp hl
    exact .inl ⟨rfl, rfl⟩
  | cons h _ ih =>
    intro n l hl
    have hpos := List.length_pos_iff.mpr h.ne_nil
    rw [List.length_append]
    rcases mem_ofRow_cons hl with ⟨-, hstop⟩ | hmem
    · exact .inr (by omega)
    · rcases ih hmem with ⟨heof, hstop⟩ | hlt
      · exact .inl ⟨heof, by omega⟩
      · exact .inr (by omega)

lemma EndsOpen.cons {p : Piece} {text rest : List Char} (h : p.Takes text rest)
    (hrest : EndsOpen rest) : EndsOpen (text ++ rest) := by
  obtain ⟨pieces, body, hrow⟩ := hrest
  exact ⟨(p, text) :: pieces, body, .cons h hrow⟩

/-- A piece ends where it ended when something is put in behind it, unless it is a line comment. -/
lemma Piece.Takes.padded {p : Piece} {text rest : List Char} {n : Nat} (h : p.Takes text rest)
    (hpad : Padding (pad n))
    (hplace : pad n ≠ [] → ∀ body, (p, text) ≠ (.trivia, '/' :: '/' :: body)) :
    p.Takes text (Source.padded pad n rest) := by
  by_cases hempty : pad n = []
  · exact h.of_head?_eq (head?_padded hempty rest)
  · cases h.1 with
    | token hspelled =>
      refine takes_token hspelled fun c hc => ?_
      rw [head?_padded_of_ne hempty] at hc
      rcases hpad.head? c hc with hblank | rfl
      · refine ⟨isWordChar_eq_false_of_isBlank hblank, ?_⟩
        rintro rfl
        cases hblank
      · decide
    | trivia htrivia =>
      cases htrivia with
      | blank hblank => exact takes_blank hblank _
      | blockComment hfirst => exact takes_blockComment hfirst _
      | lineComment hline => exact absurd rfl (hplace hempty _)

/-! ### Padding along a row -/

/-- Behind `n`, where a row starts, something is put in behind tokens of the row only, and at its
end only if that is not inside a line comment. -/
def PadsTokens (pad : Nat → List Char) (n : Nat) (pieces : List (Piece × List Char))
    (s : List Char) : Prop :=
  ∀ k, n < k → pad k ≠ [] → ∃ l ∈ Lexeme.ofRow n pieces, l.span.stop = k ∧
    (l.token = .endOfFile → ¬ EndsOpen s)

namespace PadsTokens

variable {n : Nat} {p : Piece} {text rest : List Char} {pieces : List (Piece × List Char)}

/-- The places in a row are the end of its first piece, if that is a token, and those in what
follows. -/
lemma first_or (h : PadsTokens pad n ((p, text) :: pieces) (text ++ rest)) {k : Nat} (hk : n < k)
    (hne : pad k ≠ []) : k = n + text.length ∧ (∃ t, p = .token t) ∨
      ∃ l ∈ Lexeme.ofRow (n + text.length) pieces, l.span.stop = k ∧
        (l.token = .endOfFile → ¬ EndsOpen (text ++ rest)) := by
  obtain ⟨l, hl, hstop, hopen⟩ := h k hk hne
  rcases mem_ofRow_cons hl with ⟨hp, hend⟩ | hmem
  · exact .inl ⟨hstop.symm.trans hend, _, hp⟩
  · exact .inr ⟨l, hmem, hstop, hopen⟩

/-- Nothing is put into a piece. -/
lemma eq_nil (h : PadsTokens pad n ((p, text) :: pieces) (text ++ rest)) (hrest : Row pieces rest) :
    ∀ k, n < k → k < n + text.length → pad k = [] := by
  intro k hk hk'
  by_contra hne
  rcases h.first_or hk hne with ⟨heq, -⟩ | ⟨l, hl, hstop, -⟩
  · omega
  · rcases stop_of_mem_ofRow hrest hl with hend | hlt <;> omega

/-- Nothing is put right behind a line comment. -/
lemma ne_lineComment (h : PadsTokens pad n ((p, text) :: pieces) (text ++ rest))
    (htakes : p.Takes text rest) (hrest : Row pieces rest) (hne : pad (n + text.length) ≠ []) :
    ∀ body, (p, text) ≠ (.trivia, '/' :: '/' :: body) := by
  rintro body ⟨⟩
  have hpos := List.length_pos_iff.mpr htakes.ne_nil
  rcases h.first_or (Nat.lt_add_of_pos_right hpos) hne with ⟨-, t, ht⟩ | ⟨l, hl, hstop, hopen⟩
  · cases ht
  · rcases stop_of_mem_ofRow hrest hl with ⟨heof, hend⟩ | hlt
    · have hnil : rest = [] := List.length_eq_zero_iff.mp (by omega)
      subst hnil
      exact hopen heof ⟨[], body, .cons htakes .nil⟩
    · omega

lemma tail (h : PadsTokens pad n ((p, text) :: pieces) (text ++ rest))
    (htakes : p.Takes text rest) : PadsTokens pad (n + text.length) pieces rest := by
  intro k hk hne
  rcases h.first_or (by omega) hne with ⟨heq, -⟩ | ⟨l, hl, hstop, hopen⟩
  · omega
  · exact ⟨l, hl, hstop, fun heof hends => hopen heof (hends.cons htakes)⟩

end PadsTokens

/-- A row with padding behind its tokens is a row with the same tokens. -/
lemma exists_row_padded (hpad : ∀ k, Padding (pad k)) {pieces : List (Piece × List Char)}
    {s : List Char} (h : Row pieces s) : ∀ {n : Nat}, PadsTokens pad n pieces s →
    ∃ pieces', Row pieces' (padded pad n s) ∧ rowTokens pieces' = rowTokens pieces := by
  induction h with
  | nil =>
    intro n _
    obtain ⟨pieces', hrow, htokens⟩ := (hpad n).exists_row .nil
    rw [List.append_nil] at hrow
    exact ⟨pieces', hrow, htokens⟩
  | cons h hrest ih =>
    rename_i p text rest pieces
    intro n hplaces
    have htakes : p.Takes text (padded pad (n + text.length) rest) :=
      h.padded (hpad _) (hplaces.ne_lineComment h hrest)
    obtain ⟨pieces', hrow, htokens⟩ := ih (hplaces.tail h)
    obtain ⟨pieces'', hrow', htokens'⟩ := (hpad n).exists_row (.cons htakes hrow)
    rw [padded_append h.ne_nil (hplaces.eq_nil hrest)]
    rw [rowTokens_cons, htokens, ← rowTokens_cons] at htokens'
    exact ⟨pieces'', hrow', htokens'⟩

/-- Padding may be put in front of a text, and behind each of its tokens, the end of the file
included unless a line comment without its newline stands before it. -/
def IsPlace (source : String) (ls : List Lexeme) (k : Nat) : Prop :=
  k = 0 ∨ ∃ l ∈ ls, l.span.stop = k ∧ (l.token = .endOfFile → ¬ EndsOpen source.toList)

/-- A text with padding in its places has the same tokens. -/
theorem Lexeme.exists_tokens_padded {source source' : String} {ls : List Lexeme}
    (h : ofText source = .ok ls) (hpad : ∀ k, Padding (pad k))
    (hplaces : ∀ k, pad k ≠ [] → IsPlace source ls k)
    (hsource : source'.toList = padded pad 0 source.toList) :
    ∃ ls', ofText source' = .ok ls' ∧ ls'.map (·.token) = ls.map (·.token) := by
  obtain ⟨pieces, hrow, rfl⟩ := ofCharsAt_eq_ok_iff.mp h
  obtain ⟨pieces', hrow', htokens⟩ := exists_row_padded hpad hrow (n := 0) fun k hk hne =>
    (hplaces k hne).resolve_left (by omega)
  rw [← hsource] at hrow'
  refine ⟨_, ofCharsAt_eq_ok_iff.mpr ⟨pieces', hrow', rfl⟩, ?_⟩
  rw [map_token_ofRow, map_token_ofRow, htokens]

/-- Behind the end of a file that ends in a line comment, the comment takes in what is added: here a
block comment of two lines, so that the second line does not read. -/
theorem Lexeme.not_ofText_padded :
    ∃ ls pad, ofText "//" = .ok ls ∧ (∀ k, Padding (pad k)) ∧
      (∀ k, pad k ≠ [] → ∃ l ∈ ls, l.span.stop = k) ∧
      "///*\n*/".toList = padded pad 0 "//".toList ∧
      ofText "///*\n*/" = .error ⟨.unexpectedCharacter '*', ⟨5, 6⟩⟩ := by
  have hcomment : Padding ('/' :: '*' :: (['\n'] ++ ['*', '/']) ++ []) :=
    .blockComment (by decide) .nil
  refine ⟨[⟨.endOfFile, ⟨2, 2⟩⟩],
    fun k => if k = 2 then '/' :: '*' :: (['\n'] ++ ['*', '/']) ++ [] else [],
    by decide +kernel, fun k => ?_, fun k hk => ?_, by decide +kernel, by decide +kernel⟩
  · dsimp only
    split
    · exact hcomment
    · exact .nil
  · by_cases htwo : k = 2
    · exact ⟨_, List.mem_singleton_self _, htwo.symm⟩
    · exact absurd (if_neg htwo) hk

end Interop.Source
