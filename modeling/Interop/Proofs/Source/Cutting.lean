/-
# What the lexer cuts off

The lexer takes the first piece off a text by looking at its first characters; the lexicon says what
a piece is and where it ends.  Here the two are compared, for each kind of piece.

Main results:
* `Piece.takes_of_cut`: what the lexer cuts off is a piece that ends where it was cut;
* `Piece.exists_cut`: a piece that ends is cut off.
-/
import Interop.Proofs.Source.Lexicon

namespace Interop.Source

namespace Cut

variable (c : Char) (cs : List Char) (n : Nat) (p : Char → Bool)

@[simp] lemma text_first : (first c cs n).text = c :: cs.take n := rfl

@[simp] lemma rest_first : (first c cs n).rest = cs.drop n := rfl

@[simp] lemma text_span : (span c cs p).text = c :: cs.takeWhile p := rfl

@[simp] lemma rest_span : (span c cs p).rest = cs.dropWhile p := rfl

end Cut

lemma exists_takeWhile_append {α : Type} (p : α → Bool) (l : List α) :
    ∃ rest, l = l.takeWhile p ++ rest ∧ ∀ a, rest.head? = some a → p a = false := by
  refine ⟨l.dropWhile p, List.takeWhile_append_dropWhile.symm, fun a ha => ?_⟩
  rw [← List.find?_not_eq_head?_dropWhile] at ha
  simpa using List.find?_some ha

lemma takeWhile_append_of_head? {α : Type} {p : α → Bool} {l rest : List α}
    (hl : ∀ a ∈ l, p a = true) (hrest : ∀ a, rest.head? = some a → p a = false) :
    (l ++ rest).takeWhile p = l := by
  rw [List.takeWhile_append_of_pos hl]
  cases rest with
  | nil => simp
  | cons a rest => simp [hrest a rfl]

/-- A comment goes up to the first `*/`. -/
lemma commentLength?_eq_some_iff {cs : List Char} {n : Nat} : commentLength? cs = some n ↔
    ∃ body rest, cs = body ++ ['*', '/'] ++ rest ∧ ¬ ['*', '/'] <:+: body ∧
      n = body.length + 2 := by
  induction cs using commentLength?.induct generalizing n with
  | case1 cs =>
    simp only [commentLength?, Option.some.injEq]
    constructor
    · rintro rfl
      exact ⟨[], cs, rfl, by simp, rfl⟩
    · rintro ⟨body, rest, hcs, hfirst, rfl⟩
      rcases body with _ | ⟨a, _ | ⟨b, body⟩⟩
      · rfl
      · simp at hcs
      · simp only [List.cons_append, List.cons.injEq] at hcs
        obtain ⟨rfl, rfl, -⟩ := hcs
        exact absurd ⟨[], body, rfl⟩ hfirst
  | case2 c cs hopen ih =>
    rw [commentLength?.eq_2 _ _ hopen, Option.map_eq_some_iff]
    simp only [ih]
    constructor
    · rintro ⟨n, ⟨body, rest, rfl, hfirst, rfl⟩, rfl⟩
      refine ⟨c :: body, rest, rfl, ?_, rfl⟩
      rw [List.infix_cons_iff, not_or]
      refine ⟨?_, hfirst⟩
      rintro ⟨after, hafter⟩
      cases hafter
      exact hopen _ rfl rfl
    · rintro ⟨body, rest, hcs, hfirst, rfl⟩
      cases body with
      | nil =>
        cases hcs
        exact absurd rfl (hopen _ rfl)
      | cons a body =>
        cases hcs
        rw [List.infix_cons_iff, not_or] at hfirst
        exact ⟨_, ⟨body, rest, rfl, hfirst.2, rfl⟩, rfl⟩
  | case3 => simp [commentLength?]

lemma Symbol.ofChar?_eq_some_iff {c : Char} {s : Symbol} :
    ofChar? c = some s ↔ s.text.toList = [c] ∧ c ≠ '<' := by
  constructor
  · intro h
    unfold ofChar? at h
    split at h <;> cases h <;> decide
  · rintro ⟨h, hne⟩
    cases s <;> cases h <;> first | rfl | exact absurd rfl hne

namespace Numeral

/-- A zero with a mark behind it starts a hexadecimal numeral. -/
lemma read_cases (c : Char) (cs : List Char) :
    (∃ mark rest, c = '0' ∧ cs = mark :: rest ∧ (mark = 'x' ∨ mark = 'X') ∧
      read c cs = hexadecimal mark rest) ∨
    (¬ (c = '0' ∧ ∃ mark, cs.head? = some mark ∧ (mark = 'x' ∨ mark = 'X')) ∧
      read c cs = decimal c cs) := by
  unfold read
  split
  · exact .inl ⟨_, _, rfl, rfl, .inl rfl, rfl⟩
  · exact .inl ⟨_, _, rfl, rfl, .inr rfl, rfl⟩
  · rename_i hx hX
    refine .inr ⟨?_, rfl⟩
    rintro ⟨rfl, mark, hmark, rfl | rfl⟩
    · obtain ⟨rest, rfl⟩ := List.head?_eq_some_iff.mp hmark
      exact hx rest rfl rfl
    · obtain ⟨rest, rfl⟩ := List.head?_eq_some_iff.mp hmark
      exact hX rest rfl rfl

lemma body_prefix (c : Char) (cs : List Char) : (read c cs).body <+: cs := by
  rcases read_cases c cs with ⟨mark, rest, -, rfl, -, hread⟩ | ⟨-, hread⟩
  · rw [hread]
    exact (List.prefix_cons_inj mark).mpr (List.takeWhile_prefix _)
  · rw [hread]
    exact List.takeWhile_prefix _

end Numeral

/-- What a number that is cut off consists of. -/
lemma exists_of_cutNumber {c : Char} {cs : List Char} {t : Token} {cut : Cut (c :: cs)}
    (h : cutNumber c cs = .ok (t, cut)) :
    ∃ (v : UInt64) (suffix : List Char), t = .integer v ∧
      (Numeral.read c cs).value? = some v.toNat ∧
      cut.text = c :: ((Numeral.read c cs).body ++ suffix) ∧
      (∀ d ∈ suffix, isSuffixLetter d = true) ∧
      ∀ d, cut.rest.head? = some d → isWordChar d = false := by
  have hbody := List.prefix_iff_eq_take.mp (Numeral.body_prefix c cs)
  unfold cutNumber at h
  generalize Numeral.read c cs = n at h hbody ⊢
  have hsuffix := List.prefix_iff_eq_take.mp
    (List.takeWhile_prefix isSuffixLetter (l := cs.drop n.body.length))
  dsimp only at h
  split at h
  · cases h
  · rename_i v hv
    split_ifs at h with hword hlt
    cases h
    have hv64 : (UInt64.ofNat v).toNat = v := UInt64.toNat_ofNat_of_lt' hlt
    refine ⟨_, (cs.drop n.body.length).takeWhile isSuffixLetter, rfl, by rw [hv64, hv], ?_,
      fun d hd => List.mem_takeWhile_imp hd, fun d hd => ?_⟩
    · rw [Cut.text_first, List.take_add, ← hbody, ← hsuffix]
    · rw [hd] at hword
      simpa using hword

/-- A number that nothing joins is cut off. -/
lemma exists_cutNumber {c : Char} {cs suffix rest : List Char} {v : UInt64}
    (hvalue : (Numeral.read c cs).value? = some v.toNat)
    (hcs : cs = (Numeral.read c cs).body ++ (suffix ++ rest))
    (hsuffix : ∀ d ∈ suffix, isSuffixLetter d = true)
    (hrest : ∀ d, rest.head? = some d → isWordChar d = false) :
    ∃ cut : Cut (c :: cs), cutNumber c cs = .ok (.integer v, cut) ∧
      cut.text = c :: ((Numeral.read c cs).body ++ suffix) ∧ cut.rest = rest := by
  unfold cutNumber
  generalize Numeral.read c cs = n at hvalue hcs ⊢
  have hdrop : cs.drop n.body.length = suffix ++ rest := by rw [hcs, List.drop_left]
  have hsuffixRead : (suffix ++ rest).takeWhile isSuffixLetter = suffix := by
    refine takeWhile_append_of_head? hsuffix fun d hd => ?_
    cases hletter : isSuffixLetter d with
    | false => rfl
    | true =>
      have := hrest d hd
      rw [isWordChar_of_isSuffixLetter hletter] at this
      cases this
  have hfirst : (Cut.first c cs (n.body.length + suffix.length)).rest = rest := by
    rw [Cut.rest_first, ← List.drop_drop, hdrop, List.drop_left]
  have hword : rest.head?.any isWordChar = false := by
    cases hd : rest.head? with
    | none => rfl
    | some d => exact hrest d hd
  refine ⟨.first c cs (n.body.length + suffix.length), ?_, ?_, hfirst⟩
  · have hlt : v.toNat < twoPow 64 := v.toNat_lt
    simp only [hvalue, hdrop, hsuffixRead, hfirst, hword, hlt, UInt64.ofNat_toNat]
    simp
  · rw [Cut.text_first, List.take_add, hdrop, List.take_left, hcs, List.take_left]

lemma head?_any_eq_true_iff {p : Char → Bool} {l : List Char} :
    l.head?.any p = true ↔ ∃ c cs, l = c :: cs ∧ p c = true := by
  cases l <;> simp

lemma not_joins_of_isRun {text rest : List Char} (htext : IsRun text)
    (hrest : ∀ d, rest.head? = some d → isWordChar d = false) :
    ∀ d, rest.head? = some d → ¬ Joins text d := by
  rintro d hd hjoins
  cases hjoins with
  | run _ hword =>
    rw [hrest d hd] at hword
    cases hword
  | shift =>
    have := htext.2 '<' (by simp)
    cases this
  | lineComment _ =>
    have := htext.2 '/' (by simp)
    cases this

/-- The number that the lexer cuts off is a numeral. -/
lemma Piece.takes_of_cutNumber {c : Char} {cs : List Char} {t : Token} {cut : Cut (c :: cs)}
    (hc : c.isDigit = true) (h : cutNumber c cs = .ok (t, cut)) :
    (Piece.token t).Takes cut.text cut.rest := by
  obtain ⟨v, suffix, rfl, hvalue, htext, hsuffix, hrest⟩ := exists_of_cutNumber h
  have hspelled : (Token.integer v).SpelledBy cut.text := by
    rw [htext]
    rw [Numeral.value?_eq_some_iff] at hvalue
    obtain ⟨hne, hvalue⟩ := hvalue
    rcases Numeral.read_cases c cs with ⟨mark, rest, rfl, -, hmark, hread⟩ | ⟨-, hread⟩
    · rw [hread] at hne hvalue ⊢
      refine .hexadecimal hmark
        ((denotes_iff isDigit_sixteen_iff).mpr ⟨fun d hd => ?_, hne, hvalue⟩) hsuffix
      simpa using List.mem_takeWhile_imp hd
    · rw [hread] at hne hvalue ⊢
      rw [← List.cons_append]
      refine .decimal (by simpa using hc) ((denotes_iff isDigit_ten_iff).mpr ⟨?_, hne, hvalue⟩)
        hsuffix
      rintro d (_ | ⟨_, hd⟩)
      · exact .inl hc
      · simpa using List.mem_takeWhile_imp hd
  refine takes_iff.mpr ⟨.token hspelled, not_joins_of_isRun ?_ hrest⟩
  rcases hspelled.symbol_or_isRun with ⟨s, hs, -⟩ | hrun
  · cases hs
  · exact hrun

lemma cutWord_snd (c : Char) (cs : List Char) : (cutWord c cs).2 = .span c cs isWordChar := by
  unfold cutWord
  dsimp only
  split <;> rfl

lemma cutWord_keyword {c : Char} {cs : List Char} {k : Keyword}
    (h : k.text.toList = c :: cs.takeWhile isWordChar) : (cutWord c cs).1 = .keyword k := by
  have hlookup : Keyword.ofText? (String.ofList (c :: cs.takeWhile isWordChar)) = some k := by
    rw [← h, String.ofList_toList, Keyword.ofText?_text]
  simp only [cutWord, Cut.text_span, hlookup]

lemma cutWord_ident {c : Char} {cs : List Char}
    (h : ∀ k : Keyword, k.text.toList ≠ c :: cs.takeWhile isWordChar) :
    (cutWord c cs).1 = .ident (String.ofList (c :: cs.takeWhile isWordChar)) := by
  have hlookup : Keyword.ofText? (String.ofList (c :: cs.takeWhile isWordChar)) = none := by
    refine List.find?_eq_none.mpr fun k _ hk => h k ?_
    rw [eq_of_beq hk, String.toList_ofList]
  simp only [cutWord, Cut.text_span, hlookup]

/-- The word that the lexer cuts off is a keyword or an identifier. -/
lemma Piece.takes_cutWord {c : Char} {cs : List Char} (hc : isWordStart c = true) :
    (Piece.token (cutWord c cs).1).Takes (cutWord c cs).2.text (cutWord c cs).2.rest := by
  have hword : IsWord (c :: cs.takeWhile isWordChar) := by
    refine ⟨⟨by simp, ?_⟩, by simpa using hc⟩
    rintro d (_ | ⟨_, hd⟩)
    · exact isWordChar_of_isWordStart hc
    · exact List.mem_takeWhile_imp hd
  obtain ⟨rest, hcs, hrest⟩ := exists_takeWhile_append isWordChar cs
  have hdrop : cs.dropWhile isWordChar = rest :=
    List.append_cancel_left (List.takeWhile_append_dropWhile.trans hcs)
  rw [cutWord_snd, Cut.text_span, Cut.rest_span, hdrop]
  refine takes_iff.mpr ⟨.token ?_, not_joins_of_isRun hword.1 hrest⟩
  by_cases hkeyword : ∃ k : Keyword, k.text.toList = c :: cs.takeWhile isWordChar
  · obtain ⟨k, hk⟩ := hkeyword
    rw [cutWord_keyword hk, ← hk]
    exact .keyword k
  · have hident : ∀ k : Keyword, k.text.toList ≠ c :: cs.takeWhile isWordChar :=
      fun k hk => hkeyword ⟨k, hk⟩
    rw [cutWord_ident hident]
    exact .ident hword hident

/-- No part of a word stands behind a run that is taken. -/
lemma Piece.Takes.head?_rest {p : Piece} {text rest : List Char} (h : p.Takes text rest)
    (htext : IsRun text) : ∀ d, rest.head? = some d → isWordChar d = false := by
  intro d hd
  have hends := (takes_iff.mp h).2 d hd
  cases hword : isWordChar d with
  | false => rfl
  | true => exact absurd (.run htext hword) hends

/-- A word that ends is cut off. -/
lemma cutWord_of_takes {c : Char} {cs text rest : List Char} {p : Piece} (h : p.Takes text rest)
    (hword : IsWord text) (hs : text ++ rest = c :: cs) :
    isWordStart c = true ∧ text = c :: cs.takeWhile isWordChar ∧
      cs.dropWhile isWordChar = rest := by
  obtain ⟨hrun, hstart⟩ := hword
  obtain ⟨d, ds, rfl, hd⟩ := head?_any_eq_true_iff.mp hstart
  cases hs
  have htake : (ds ++ rest).takeWhile isWordChar = ds :=
    takeWhile_append_of_head? (fun a ha => hrun.2 a (by simp [ha])) (h.head?_rest hrun)
  have hsplit := List.takeWhile_append_dropWhile (p := isWordChar) (l := ds ++ rest)
  rw [htake] at hsplit
  exact ⟨hd, congrArg (c :: ·) htake.symm, List.append_cancel_left hsplit⟩

/-- What goes on with digits or a mark goes on with neither suffix letters nor what follows. -/
lemma head?_suffix_append {p : Char → Bool} {suffix rest : List Char}
    (hword : ∀ {d : Char}, p d = true → isWordChar d = true)
    (hletter : ['u', 'U', 'l', 'L'].all (!p ·) = true)
    (hsuffix : ∀ d ∈ suffix, isSuffixLetter d = true)
    (hrest : ∀ d, rest.head? = some d → isWordChar d = false) :
    ∀ d, (suffix ++ rest).head? = some d → p d = false := by
  intro d hd
  cases suffix with
  | nil =>
    cases hp : p d with
    | false => rfl
    | true =>
      have := hrest d hd
      rw [hword hp] at this
      cases this
  | cons e suffix =>
    cases hd
    have hd := hsuffix d (by simp)
    simpa using List.all_eq_true.mp hletter d (by simpa [isSuffixLetter, or_assoc] using hd)

/-- A decimal numeral is read up to its suffix. -/
lemma Numeral.read_decimal {c : Char} {digits suffix rest : List Char}
    (hdigits : ∀ d ∈ digits, d.isDigit = true ∨ d = '_')
    (hsuffix : ∀ d ∈ suffix, isSuffixLetter d = true)
    (hrest : ∀ d, rest.head? = some d → isWordChar d = false) :
    read c (digits ++ (suffix ++ rest)) = ⟨10, digits, c :: digits⟩ := by
  have hbody : (digits ++ (suffix ++ rest)).takeWhile (fun d => d.isDigit || d == '_') =
      digits := by
    refine takeWhile_append_of_head? (fun d hd => by simpa using hdigits d hd) ?_
    refine head?_suffix_append (fun {d} hd => ?_) (by decide) hsuffix hrest
    rcases (by simpa using hd : d.isDigit = true ∨ d = '_') with hd | rfl
    · exact isWordChar_of_isDigit hd
    · decide
  rcases read_cases c (digits ++ (suffix ++ rest)) with
    ⟨mark, rest', -, hcs, hmark, -⟩ | ⟨-, hread⟩
  · -- no mark stands behind the first digit
    cases digits with
    | nil =>
      have := head?_suffix_append (p := fun d => d == 'x' || d == 'X')
        (fun {d} hd => by rcases (by simpa using hd) with rfl | rfl <;> decide)
        (by decide) hsuffix hrest mark (by rw [← List.nil_append (suffix ++ rest), hcs]; rfl)
      rcases hmark with rfl | rfl <;> cases this
    | cons d digits =>
      cases hcs
      rcases hmark with rfl | rfl <;> cases hdigits _ List.mem_cons_self <;> contradiction
  · rw [hread, decimal, hbody]

/-- A hexadecimal numeral is read up to its suffix. -/
lemma Numeral.read_hexadecimal {mark : Char} {digits suffix rest : List Char}
    (hmark : mark = 'x' ∨ mark = 'X') (hdigits : ∀ d ∈ digits, isHexDigit d = true ∨ d = '_')
    (hsuffix : ∀ d ∈ suffix, isSuffixLetter d = true)
    (hrest : ∀ d, rest.head? = some d → isWordChar d = false) :
    read '0' (mark :: (digits ++ (suffix ++ rest))) = ⟨16, mark :: digits, digits⟩ := by
  have hbody : (digits ++ (suffix ++ rest)).takeWhile (fun d => isHexDigit d || d == '_') =
      digits := by
    refine takeWhile_append_of_head? (fun d hd => by simpa using hdigits d hd) ?_
    refine head?_suffix_append (fun {d} hd => ?_) (by decide) hsuffix hrest
    rcases (by simpa using hd : isHexDigit d = true ∨ d = '_') with hd | rfl
    · exact isWordChar_of_isHexDigit hd
    · decide
  rcases hmark with rfl | rfl <;> rw [read, hexadecimal, hbody]

/-- A number that ends is cut off. -/
lemma exists_cutNumber_of_takes {c : Char} {cs text rest : List Char} {v : UInt64}
    (h : (Piece.token (.integer v)).Takes text rest) (hs : text ++ rest = c :: cs) :
    c.isDigit = true ∧ ∃ cut : Cut (c :: cs), cutNumber c cs = .ok (.integer v, cut) ∧
      cut.text = text ∧ cut.rest = rest := by
  have hspelled := h.1
  cases hspelled with
  | token hspelled =>
  have hrun : IsRun text := by
    rcases hspelled.symbol_or_isRun with ⟨s, hs, -⟩ | hrun
    · cases hs
    · exact hrun
  have hrest := h.head?_rest hrun
  cases hspelled with
  | decimal hstart hvalue hsuffix =>
    rename_i digits suffix
    obtain ⟨hdigits, hne, hnumeral⟩ := (denotes_iff isDigit_ten_iff).mp hvalue
    obtain ⟨d, ds, rfl, hd⟩ := head?_any_eq_true_iff.mp hstart
    obtain ⟨rfl, rfl⟩ : d = c ∧ ds ++ (suffix ++ rest) = cs := by simpa using hs
    have hread := Numeral.read_decimal (c := d) (fun e he => hdigits e (List.mem_cons_of_mem d he))
      hsuffix hrest
    have hvalue : (Numeral.read d (ds ++ (suffix ++ rest))).value? = some v.toNat := by
      rw [hread, Numeral.value?_eq_some_iff]
      exact ⟨hne, hnumeral⟩
    obtain ⟨cut, hcut, htext, hcutRest⟩ := exists_cutNumber hvalue (by rw [hread]) hsuffix hrest
    exact ⟨hd, cut, hcut, by rw [htext, hread]; rfl, hcutRest⟩
  | hexadecimal hmark hvalue hsuffix =>
    rename_i mark digits suffix
    obtain ⟨hdigits, hne, hnumeral⟩ := (denotes_iff isDigit_sixteen_iff).mp hvalue
    obtain ⟨rfl, rfl⟩ : '0' = c ∧ mark :: (digits ++ (suffix ++ rest)) = cs := by simpa using hs
    have hread := Numeral.read_hexadecimal hmark hdigits hsuffix hrest
    have hvalue : (Numeral.read '0' (mark :: (digits ++ (suffix ++ rest)))).value? =
        some v.toNat := by
      rw [hread, Numeral.value?_eq_some_iff]
      exact ⟨hne, hnumeral⟩
    obtain ⟨cut, hcut, htext, hcutRest⟩ :=
      exists_cutNumber hvalue (by rw [hread]; rfl) hsuffix hrest
    exact ⟨by decide, cut, hcut, by rw [htext, hread]; rfl, hcutRest⟩

lemma not_joins_symbol {s : Symbol} {rest : List Char} (h : s ≠ .less ∨ rest.head? ≠ some '<') :
    ∀ d, rest.head? = some d → ¬ Joins s.text.toList d := by
  intro d hd hjoins
  obtain ⟨c, cs, htext, hword, -, hslash⟩ := s.exists_text
  generalize htext' : s.text.toList = text at hjoins
  cases hjoins with
  | run hrun _ =>
    have := hrun.2 c (by simp [← htext', htext])
    rw [hword] at this
    cases this
  | shift =>
    rcases h with h | h
    · cases s <;> first | exact h rfl | cases htext'
    · exact h hd
  | lineComment _ =>
    rw [htext] at htext'
    cases htext'
    exact hslash rfl

/-! ### Pieces that the lexer takes -/

namespace Piece

lemma takes_blank {c : Char} (h : Text.isBlank c = true) (rest : List Char) :
    trivia.Takes [c] rest :=
  ⟨.trivia (.blank h), fun _ hne _ hlonger => hne (hlonger.eq_nil_of_isBlank h)⟩

lemma takes_lineComment {body rest : List Char} (h : '\n' ∉ body)
    (hrest : ∀ d, rest.head? = some d → d = '\n') : trivia.Takes ('/' :: '/' :: body) rest := by
  refine takes_iff.mpr ⟨.trivia (.lineComment h), fun d hd hjoins => ?_⟩
  cases hrest d hd
  cases hjoins with
  | run hrun _ =>
    have := hrun.2 '/' (by simp)
    cases this
  | lineComment hne => exact hne rfl

lemma takes_blockComment {body : List Char} (h : ¬ ['*', '/'] <:+: body) (rest : List Char) :
    trivia.Takes ('/' :: '*' :: (body ++ ['*', '/'])) rest := by
  refine ⟨.trivia (.blockComment h), fun more hne _ hlonger => ?_⟩
  obtain ⟨d, more, rfl⟩ := List.exists_cons_of_ne_nil hne
  exact not_isTrivia_of_closed hlonger.isTrivia

lemma takes_symbol {s : Symbol} {rest : List Char} (h : s ≠ .less ∨ rest.head? ≠ some '<') :
    (token (.symbol s)).Takes s.text.toList rest :=
  takes_iff.mpr ⟨.token (.symbol s), not_joins_symbol h⟩

/-- The token that the lexer cuts off ends where it was cut. -/
lemma takes_of_cutToken {c : Char} {cs : List Char} {t : Token} {cut : Cut (c :: cs)}
    (h : cutToken c cs = .ok (t, cut)) : (token t).Takes cut.text cut.rest := by
  unfold cutToken at h
  cases hsymbol : Symbol.ofChar? c with
  | some s =>
    obtain ⟨htext, hne⟩ := Symbol.ofChar?_eq_some_iff.mp hsymbol
    simp only [hsymbol] at h
    cases h
    rw [Cut.text_first, List.take_zero, ← htext]
    refine takes_symbol (.inl ?_)
    rintro rfl
    exact hne (List.cons.inj htext).1.symm
  | none =>
    simp only [hsymbol] at h
    split_ifs at h with hless hshift hdigit hword
    · cases eq_of_beq hless
      obtain ⟨rest, rfl⟩ := List.head?_eq_some_iff.mp (eq_of_beq hshift)
      cases h
      exact takes_symbol (.inl (by decide))
    · cases eq_of_beq hless
      cases h
      exact takes_symbol (.inr (by simpa using hshift))
    · exact takes_of_cutNumber hdigit h
    · have htakes := @takes_cutWord c cs hword
      rwa [Except.ok.inj h] at htakes

/-- What the lexer cuts off is a piece that ends where it was cut. -/
theorem takes_of_cut {c : Char} {cs : List Char} {p : Piece} {cut : Cut (c :: cs)}
    (h : Piece.cut c cs = .ok (p, cut)) : p.Takes cut.text cut.rest := by
  unfold Piece.cut at h
  split_ifs at h with hblank hline hblock
  · cases h
    exact takes_blank hblank cs
  · cases h
    simp only [Bool.and_eq_true, beq_iff_eq] at hline
    obtain ⟨rfl, hhead⟩ := hline
    obtain ⟨rest, rfl⟩ := List.head?_eq_some_iff.mp hhead
    obtain ⟨rest', hrest, hend⟩ := exists_takeWhile_append (· != '\n') rest
    have hdrop : rest.dropWhile (· != '\n') = rest' :=
      List.append_cancel_left (List.takeWhile_append_dropWhile.trans hrest)
    rw [Cut.text_span, Cut.rest_span, List.takeWhile_cons_of_pos (by decide),
      List.dropWhile_cons_of_pos (by decide), hdrop]
    refine takes_lineComment (fun hmem => ?_) fun d hd => by simpa using hend d hd
    simpa using List.mem_takeWhile_imp hmem
  · simp only [Bool.and_eq_true, beq_iff_eq] at hblock
    obtain ⟨rfl, hhead⟩ := hblock
    obtain ⟨rest, rfl⟩ := List.head?_eq_some_iff.mp hhead
    cases hlength : commentLength? rest with
    | none =>
      simp only [List.tail_cons, hlength] at h
      cases h
    | some n =>
      simp only [List.tail_cons, hlength] at h
      cases h
      obtain ⟨body, rest, rfl, hfirst, rfl⟩ := commentLength?_eq_some_iff.mp hlength
      have htake : (body ++ ['*', '/'] ++ rest).take (body.length + 2) = body ++ ['*', '/'] :=
        List.take_left' (by simp)
      rw [Cut.text_first, List.take_succ_cons, htake]
      exact takes_blockComment hfirst _
  · cases hcut : cutToken c cs with
    | error e =>
      rw [hcut] at h
      cases h
    | ok result =>
      obtain ⟨t, cut'⟩ := result
      rw [hcut] at h
      cases h
      exact takes_of_cutToken hcut

lemma cutToken_word {c : Char} {cs : List Char} (hc : isWordChar c = true) : cutToken c cs =
    if c.isDigit then cutNumber c cs
    else if isWordStart c then .ok (cutWord c cs) else .error (.unexpectedCharacter c, 1) := by
  have hsymbol : Symbol.ofChar? c = none := by
    cases hs : Symbol.ofChar? c with
    | none => rfl
    | some s =>
      obtain ⟨d, ds, hd, hword, -⟩ := s.exists_text
      cases hd.symm.trans (Symbol.ofChar?_eq_some_iff.mp hs).1
      rw [hword] at hc
      cases hc
  have hless : (c == '<') = false := by
    rw [beq_eq_false_iff_ne]
    rintro rfl
    cases hc
  simp only [cutToken, hsymbol, hless, Bool.false_eq_true, if_false]

lemma cutToken_wordStart {c : Char} {cs : List Char} (hc : isWordStart c = true) :
    cutToken c cs = .ok (cutWord c cs) := by
  have hdigit : ¬ c.isDigit = true := by simp [isDigit_eq_false_of_isWordStart hc]
  rw [cutToken_word (isWordChar_of_isWordStart hc), if_neg hdigit, if_pos hc]

/-- A token that ends is cut off. -/
lemma exists_cutToken {c : Char} {cs text rest : List Char} {t : Token}
    (h : (token t).Takes text rest) (hs : text ++ rest = c :: cs) :
    ∃ cut : Cut (c :: cs), cutToken c cs = .ok (t, cut) ∧ cut.text = text ∧ cut.rest = rest := by
  have hspelled := h.1
  cases hspelled with
  | token hspelled =>
  cases hspelled with
  | keyword k =>
    obtain ⟨hc, htext, hrest⟩ := cutWord_of_takes h k.isWord_text hs
    refine ⟨.span c cs isWordChar, ?_, htext.symm, hrest⟩
    rw [cutToken_wordStart hc, ← cutWord_keyword htext, ← cutWord_snd]
  | ident hword hkeyword =>
    obtain ⟨hc, htext, hrest⟩ := cutWord_of_takes h hword hs
    subst htext
    refine ⟨.span c cs isWordChar, ?_, rfl, hrest⟩
    rw [cutToken_wordStart hc, ← cutWord_ident hkeyword, ← cutWord_snd]
  | decimal hstart hvalue hsuffix =>
    obtain ⟨hc, cut, hcut⟩ := exists_cutNumber_of_takes h hs
    refine ⟨cut, ?_, hcut.2⟩
    rw [cutToken_word (isWordChar_of_isDigit hc), if_pos hc, hcut.1]
  | hexadecimal hmark hvalue hsuffix =>
    obtain ⟨hc, cut, hcut⟩ := exists_cutNumber_of_takes h hs
    refine ⟨cut, ?_, hcut.2⟩
    rw [cutToken_word (isWordChar_of_isDigit hc), if_pos hc, hcut.1]
  | symbol s =>
    have hends := (takes_iff.mp h).2
    rcases s.length_text with hone | rfl
    · obtain ⟨d, hd⟩ := List.length_eq_one_iff.mp hone
      rw [hd] at hs hends ⊢
      cases hs
      refine ⟨.first c rest 0, ?_, rfl, rfl⟩
      by_cases hless : c = '<'
      · have hshift : rest.head? ≠ some '<' := fun hhead => hends '<' hhead (hless ▸ .shift)
        have hs : s = .less := by
          subst hless
          cases s <;> first | rfl | cases hd
        subst hless hs
        exact if_neg (by simpa using hshift)
      · simp only [cutToken, Symbol.ofChar?_eq_some_iff.mpr ⟨hd, hless⟩]
        rfl
    · cases hs
      exact ⟨.first '<' ('<' :: rest) 1, rfl, rfl, rfl⟩

/-- A piece that ends is cut off. -/
theorem exists_cut {c : Char} {cs text rest : List Char} {p : Piece} (h : p.Takes text rest)
    (hs : text ++ rest = c :: cs) :
    ∃ cut : Cut (c :: cs), Piece.cut c cs = .ok (p, cut) ∧ cut.text = text ∧ cut.rest = rest := by
  have hspelled := h.1
  cases hspelled with
  | trivia htrivia =>
    cases htrivia with
    | blank hblank =>
      cases hs
      exact ⟨.first c rest 0, if_pos hblank, rfl, rfl⟩
    | lineComment hline =>
      rename_i body
      have hends := (takes_iff.mp h).2
      obtain ⟨rfl, rfl⟩ : '/' = c ∧ '/' :: (body ++ rest) = cs := by simpa using hs
      have htake : (body ++ rest).takeWhile (· != '\n') = body := by
        refine takeWhile_append_of_head? (fun d hd => ?_) fun d hd => ?_
        · simpa using ne_of_mem_of_not_mem hd hline
        · by_contra hne
          exact hends d hd (.lineComment (by simpa using hne))
      have hdrop := List.takeWhile_append_dropWhile (p := (· != '\n')) (l := body ++ rest)
      rw [htake] at hdrop
      refine ⟨.span '/' _ (· != '\n'), rfl, ?_, ?_⟩
      · rw [Cut.text_span, List.takeWhile_cons_of_pos (by decide), htake]
      · rw [Cut.rest_span, List.dropWhile_cons_of_pos (by decide), List.append_cancel_left hdrop]
    | blockComment hfirst =>
      rename_i body
      obtain ⟨rfl, rfl⟩ : '/' = c ∧ '*' :: (body ++ ['*', '/'] ++ rest) = cs := by simpa using hs
      have hlength : commentLength? (body ++ ['*', '/'] ++ rest) = some (body.length + 2) :=
        commentLength?_eq_some_iff.mpr ⟨body, rest, rfl, hfirst, rfl⟩
      refine ⟨.first '/' _ (body.length + 2 + 1), ?_, ?_, ?_⟩
      · rw [Piece.cut, if_neg (by decide), if_neg (by simp), if_pos (by simp)]
        simp only [List.tail_cons, hlength]
      · rw [Cut.text_first, List.take_succ_cons, List.take_left' (by simp)]
      · rw [Cut.rest_first, List.drop_succ_cons, List.drop_left' (by simp)]
  | token htoken =>
    obtain ⟨cut, hcut, htext, hrest⟩ := exists_cutToken h hs
    obtain ⟨hblank, hslash⟩ := htoken.head hs
    refine ⟨cut, ?_, htext, hrest⟩
    simp [Piece.cut, hblank, hslash, hcut, Except.map]

end Piece

end Interop.Source
