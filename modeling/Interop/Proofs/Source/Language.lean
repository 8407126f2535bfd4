/-
# The files that are read are those of the language

A list of tokens that ends with the file, and does so once, is read as an assembly exactly if all of
it derives that assembly, up to spans.  Reading is a function, so no list of tokens has two trees:
the grammar is unambiguous.

Main result: `Assembly.ofLexemes_iff_derives`.
-/
import Interop.Proofs.Source.Completeness
import Interop.Proofs.Source.Soundness
import Mathlib.Data.List.Basic

namespace Interop.Source

open Reader

section Ends

variable {α : Type} {item : Reader α} {c c' : Cursor}

lemma Reader.SoundAt.length_lt {p : Phrase α} (h : item.SoundAt c p)
    (hp : ∀ ts a, p ts a → 0 < ts.length) {a : α} (hr : item c = .ok (a, c')) :
    c'.rest.length < c.rest.length := by
  obtain ⟨ts, hts, -, ha⟩ := h a c' hr
  have hlen := congrArg List.length hts
  have hpos := hp ts a ha
  rw [List.length_append, Cursor.length_tokens, Cursor.length_tokens] at hlen
  omega

/-- A repetition with as many rounds as there are tokens goes on until it is stopped. -/
lemma Reader.untilTimes_ends (hitem : ∀ c a c', item c = .ok (a, c') →
      c'.rest.length < c.rest.length) (stop : Token → Bool) {n : Nat} (hn : c.rest.length ≤ n)
    {as : List α} (h : untilTimes stop item n c = .ok (as, c')) :
    c'.next.token = .endOfFile ∨ stop c'.next.token = true := by
  induction n generalizing c as with
  | zero =>
    cases h
    refine .inl ?_
    rw [Cursor.next, List.eq_nil_of_length_eq_zero (Nat.le_zero.mp hn)]
    rfl
  | succ n ih =>
    rw [untilTimes, next_bind] at h
    split at h
    · rename_i hstop
      cases h
      simpa using hstop
    · obtain ⟨a, c₁, hread, h⟩ := exists_of_bind h
      obtain ⟨as, c₂, hmore, h⟩ := exists_of_bind h
      cases h
      have hlt := hitem c a c₁ hread
      exact ih (by omega) hmore

end Ends

/-- The items of a file are read up to its end. -/
lemma Item.readTo_ends {c c' : Cursor} {n : Nat} (hc : 0 < c.rest.length)
    (hn : c.rest.length ≤ n) {items : List Item}
    (h : readTo (fun _ => false) n c = .ok (items, c')) : c'.next.token = .endOfFile := by
  obtain ⟨n, rfl⟩ : ∃ k, n = k + 1 := Nat.exists_eq_add_one.mpr (by omega)
  obtain ⟨options, c₁, hread, h⟩ := exists_of_bind h
  cases h
  have hends := untilTimes_ends (fun c _ _ hr => (readWith_soundAt (readTo_soundAt _ n) c).length_lt
    (fun _ _ h => length_pos_of_nextOf h.opens.ne_endOfFile) hr) _ (Nat.le_refl _) hread
  simpa using hends

variable {ls : List Lexeme} {ts : List Token}

/-- A list of tokens is read as its items are from its start. -/
lemma Assembly.ofLexemes_eq_ok_iff {b : Assembly} :
    ofLexemes ls = .ok b ↔
      ∃ c', Item.readTo (fun _ => false) ls.length (.ofLexemes ls) = .ok (b.items, c') := by
  have hmap : ofLexemes ls = (Item.readTo (fun _ => false) ls.length (.ofLexemes ls)).map
      fun r => ⟨r.1⟩ := rfl
  rw [hmap]
  cases Item.readTo (fun _ => false) ls.length (.ofLexemes ls) with
  | error e => simp [Except.map]
  | ok r =>
    obtain ⟨items, c'⟩ := r
    obtain ⟨bs⟩ := b
    simp [Except.map]

lemma Assembly.derives_of_ofLexemes (hls : ls.map (·.token) = ts ++ [.endOfFile])
    (heof : .endOfFile ∉ ts) {b : Assembly} (h : ofLexemes ls = .ok b) :
    Derives ts b.withoutSpans := by
  obtain ⟨c', hread⟩ := ofLexemes_eq_ok_iff.mp h
  obtain ⟨us, hus, hnot, hderives⟩ := Item.readTo_soundAt _ _ _ _ _ hread
  have hlen : 0 < ls.length := by
    rw [← List.length_map (·.token), hls, List.length_append]
    simp
  have hend : nextOf c'.tokens = .endOfFile := by
    rw [← Cursor.token_next]
    exact Item.readTo_ends (c := .ofLexemes ls) hlen (Nat.le_refl _) hread
  have htokens : ts ++ [.endOfFile] = us ++ c'.tokens := hls.symm.trans hus
  -- what is left starts with the end of the file, which comes only once
  cases hrest : c'.tokens with
  | nil =>
    rw [hrest, List.append_nil] at htokens
    exact absurd (htokens ▸ List.mem_append_right ts (List.mem_singleton_self _)) hnot
  | cons t vs =>
    rw [hrest, nextOf_cons] at hend
    rw [hrest, hend, List.append_cons_inj_of_notMem heof List.not_mem_nil] at htokens
    rw [htokens.1]
    exact hderives

lemma Assembly.exists_ofLexemes (hls : ls.map (·.token) = ts ++ [.endOfFile]) {a : Assembly}
    (h : Derives ts a) : ∃ b, ofLexemes ls = .ok b ∧ b.withoutSpans = a := by
  have hlen : ts.length ≤ ls.length := by
    have := congrArg List.length hls
    rw [List.length_map, List.length_append] at this
    omega
  obtain ⟨items, c', hread, -, hitems⟩ :=
    Item.readTo_completeTo (fun _ => false) (fun _ _ => rfl) ls.length ts a [.endOfFile] hlen h
      ⟨.inl rfl, by simp⟩ (.ofLexemes ls) hls
  exact ⟨⟨items⟩, ofLexemes_eq_ok_iff.mpr ⟨c', hread⟩, hitems⟩

/-- A file is read as an assembly exactly if its tokens derive it, and they derive no other. -/
theorem Assembly.ofLexemes_iff_derives (hls : ls.map (·.token) = ts ++ [.endOfFile])
    (heof : .endOfFile ∉ ts) :
    (∀ a, (∃ b, ofLexemes ls = .ok b ∧ b.withoutSpans = a) ↔ Derives ts a) ∧
      ∀ a a', Derives ts a → Derives ts a' → a = a' := by
  refine ⟨fun a => ⟨?_, exists_ofLexemes hls⟩, fun a a' ha ha' => ?_⟩
  · rintro ⟨b, h, rfl⟩
    exact derives_of_ofLexemes hls heof h
  · obtain ⟨b, h, rfl⟩ := exists_ofLexemes hls ha
    obtain ⟨b', h', rfl⟩ := exists_ofLexemes hls ha'
    rw [h] at h'
    cases h'
    rfl

/-- An enum whose item `A` is `-1 << 2 | 3`: the sign binds tightest and the bar loosest. -/
theorem Assembly.derives_enum_of_ofLexemes :
    Derives
      [.keyword .enumKw, .ident "E", .symbol .leftBrace, .ident "A", .symbol .assign,
        .symbol .minus, .integer 1, .symbol .shiftLeft, .integer 2, .symbol .pipe, .integer 3,
        .symbol .rightBrace]
      ⟨[.declared
        ⟨"E",
          .enumBody ⟨none,
            [⟨"A",
              some (.bitOr
                (.shiftLeft (.negate (.literal 1 .nowhere) .nowhere) (.literal 2 .nowhere))
                (.literal 3 .nowhere)),
              .nowhere⟩]⟩,
          .internalAccess, false, [], .nowhere⟩]⟩ := by
  refine ((@ofLexemes_iff_derives
    ([.keyword .enumKw, .ident "E", .symbol .leftBrace, .ident "A", .symbol .assign,
      .symbol .minus, .integer 1, .symbol .shiftLeft, .integer 2, .symbol .pipe, .integer 3,
      .symbol .rightBrace, .endOfFile].map (⟨·, .nowhere⟩)) _ rfl ?_).1 _).mp ⟨_, rfl, rfl⟩
  decide

end Interop.Source
