/-
# Where readers stop

A reader starts at a place between two tokens and stops at one further on, or it fails at a token of
the text (`PlacesAt`).  What is read stands between the two places: from the start of the token that
was next to the end of the one that was last (`Cursor.upTo`).  There is one rule for each of the
steps that readers are made of and one for each kind of repetition; of phrases that are repeated,
each stands before the next one (`Siblings`).

The place before the first token is the only one where the next token may begin before the last one
ends, as that one counts as the last one too; as soon as a token is read, the two are apart.
-/
import Interop.Proofs.Source.NestedSpans
import Interop.Proofs.Source.Reading

namespace Interop

namespace Span

/-- A span neither starts nor ends later than another one. -/
structure Precedes (a b : Span) : Prop where
  start : a.start ≤ b.start
  stop : a.stop ≤ b.stop

lemma Precedes.refl (a : Span) : a.Precedes a := ⟨Nat.le_refl _, Nat.le_refl _⟩

lemma Precedes.trans {a b c : Span} (h : a.Precedes b) (h' : b.Precedes c) : a.Precedes c :=
  ⟨Nat.le_trans h.start h'.start, Nat.le_trans h.stop h'.stop⟩

lemma Before.precedes {a b : Span} (h : a.Before b) (ha : a.start ≤ a.stop)
    (hb : b.start ≤ b.stop) : a.Precedes b :=
  ⟨Nat.le_trans ha h, Nat.le_trans h hb⟩

end Span

namespace Source

namespace Cursor

variable {text : Span} {c c₁ c₂ c₃ : Cursor}

/-! ### Places in a text -/

/-- The tokens around a place stand in a text, in order, and the end of the file is still to
come. -/
structure Placed (text : Span) (c : Cursor) : Prop where
  last : c.last.Inside text
  rest : ∀ l ∈ c.rest, l.span.Inside text
  inOrder : c.rest.Pairwise fun l l' => l.span.Before l'.span
  ends : ∃ l ∈ c.rest, l.token = .endOfFile
  next : c.last.Precedes c.next.span

lemma Placed.exists_next (h : c.Placed text) : ∃ ls, c.rest = c.next :: ls := by
  obtain ⟨last, _ | ⟨l, ls⟩⟩ := c
  · obtain ⟨_, h, _⟩ := h.ends
    cases h
  · exact ⟨ls, rfl⟩

lemma Placed.next_inside (h : c.Placed text) : c.next.span.Inside text := by
  obtain ⟨ls, hrest⟩ := h.exists_next
  exact h.rest _ (hrest ▸ List.mem_cons_self)

/-- One place is not before another one. -/
structure Moves (text : Span) (c c' : Cursor) : Prop where
  placed : c'.Placed text
  last : c.last.Precedes c'.last
  next : c.next.span.Precedes c'.next.span
  apart : c.last.Before c.next.span → c'.last.Before c'.next.span

/-- One place is behind another one: at least one token stands in between. -/
structure Reads (text : Span) (c c' : Cursor) : Prop extends Moves text c c' where
  read : c.next.span.Precedes c'.last
  behind : c'.last.Before c'.next.span

lemma Placed.refl (h : c.Placed text) : c.Moves text c := ⟨h, .refl _, .refl _, id⟩

lemma Moves.trans (h : c.Moves text c₁) (h' : c₁.Moves text c₂) : c.Moves text c₂ :=
  ⟨h'.placed, h.last.trans h'.last, h.next.trans h'.next, h'.apart ∘ h.apart⟩

lemma Moves.reads (h : c.Moves text c₁) (h' : c₁.Reads text c₂) : c.Reads text c₂ :=
  ⟨h.trans h'.toMoves, h.next.trans h'.read, h'.behind⟩

lemma Reads.moves (h : c.Reads text c₁) (h' : c₁.Moves text c₂) : c.Reads text c₂ :=
  ⟨h.toMoves.trans h', h.read.trans h'.last, h'.apart h.behind⟩

lemma Reads.trans (h : c.Reads text c₁) (h' : c₁.Reads text c₂) : c.Reads text c₂ :=
  h.moves h'.toMoves

/-- A token that is not the end of the file is read by moving over it. -/
lemma Placed.advance (h : c.Placed text) (hnext : c.next.token ≠ .endOfFile) :
    c.Reads text c.advance := by
  obtain ⟨last, _ | ⟨l, ls⟩⟩ := c
  · exact absurd rfl hnext
  · have hl : l.token ≠ .endOfFile := hnext
    have hadvance : advance ⟨last, l :: ls⟩ = ⟨l.span, ls⟩ := by simp [Cursor.advance, hl]
    obtain ⟨hspan, hrest⟩ := List.forall_mem_cons.mp h.rest
    obtain ⟨hbefore, hinOrder⟩ := List.pairwise_cons.mp h.inOrder
    have hends : ∃ l' ∈ ls, l'.token = .endOfFile := by
      obtain ⟨l', hl', heof⟩ := h.ends
      rcases List.mem_cons.mp hl' with rfl | hl'
      · exact absurd heof hl
      · exact ⟨l', hl', heof⟩
    cases ls with
    | nil =>
      obtain ⟨_, h, _⟩ := hends
      cases h
    | cons l' ls =>
      have hbehind : l.span.Before l'.span := hbefore l' List.mem_cons_self
      have hprecedes := hbehind.precedes hspan.ordered (hrest l' List.mem_cons_self).ordered
      rw [hadvance]
      exact ⟨⟨⟨hspan, hrest, hinOrder, hends, hprecedes⟩, h.next, hprecedes, fun _ => hbehind⟩,
        .refl _, hbehind⟩

/-! ### What stands between two places -/

/-- From the start of the token that is next at one place to the end of the one that is last at
another. -/
def upTo (c c' : Cursor) : Span := ⟨c.next.span.start, c'.last.stop⟩

lemma upTo_within (h : c.Moves text c₁) (h' : c₂.Moves text c₃) :
    (c₁.upTo c₂).Within (c.upTo c₃) :=
  ⟨h.next.start, h'.last.stop⟩

lemma upTo_within_left (h : c₁.Moves text c₂) : (c.upTo c₁).Within (c.upTo c₂) :=
  ⟨Nat.le_refl _, h.last.stop⟩

lemma upTo_within_right (h : c.Moves text c₁) : (c₁.upTo c₂).Within (c.upTo c₂) :=
  ⟨h.next.start, Nat.le_refl _⟩

lemma Reads.inside (h : c.Reads text c₁) (hc : c.Placed text) : (c.upTo c₁).Inside text where
  ordered := Nat.le_trans h.read.start h.placed.last.ordered
  within := ⟨hc.next_inside.within.1, h.placed.last.within.2⟩

/-- The first token that is read. -/
lemma Reads.next_inside (h : c.Reads text c₁) (hc : c.Placed text) :
    c.next.span.Inside (c.upTo c₁) :=
  ⟨hc.next_inside.ordered, Nat.le_refl _, h.read.stop⟩

/-- The last token that is read. -/
lemma Reads.last_inside (h : c.Reads text c₁) : c₁.last.Inside (c.upTo c₁) :=
  ⟨h.placed.last.ordered, h.read.start, Nat.le_refl _⟩

end Cursor

namespace Reader

variable {α β : Type} {text : Span}

/-! ### Single steps -/

/-- At a place in the text, a reader gives something with the property `P` and a place that is not
before, or it fails somewhere in the text. -/
def PlacesAt (text : Span) (r : Reader α) (c : Cursor) (P : α → Cursor → Prop) : Prop :=
  c.Placed text →
    (∀ a c', r c = .ok (a, c') → c.Moves text c' ∧ P a c') ∧
    ∀ e, r c = .error e → e.span.Inside text

section Steps

variable {r : Reader α} {c : Cursor} {P : α → Cursor → Prop} {Q : β → Cursor → Prop}

lemma PlacesAt.of_placed (h : c.Placed text → r.PlacesAt text c P) : r.PlacesAt text c P :=
  fun hc => h hc hc

lemma PlacesAt.mono {P' : α → Cursor → Prop} (h : r.PlacesAt text c P)
    (hP : ∀ a c', c.Moves text c' → P a c' → P' a c') : r.PlacesAt text c P' := by
  intro hc
  obtain ⟨hok, herror⟩ := h hc
  refine ⟨fun a c' hr => ?_, herror⟩
  obtain ⟨hmoves, ha⟩ := hok a c' hr
  exact ⟨hmoves, hP a c' hmoves ha⟩

lemma PlacesAt.pure {a : α} (h : P a c) : (Pure.pure a : Reader α).PlacesAt text c P := by
  refine fun hc => ⟨?_, nofun⟩
  rintro _ _ ⟨⟩
  exact ⟨hc.refl, h⟩

lemma PlacesAt.fail {fault : SyntaxFault} {span : Span} (h : c.Placed text → span.Inside text) :
    (Reader.fail fault span : Reader α).PlacesAt text c P := by
  refine fun hc => ⟨nofun, ?_⟩
  rintro _ ⟨⟩
  exact h hc

lemma PlacesAt.unexpected (what : String) :
    (Reader.unexpected what : Reader α).PlacesAt text c P := by
  refine fun hc => ⟨nofun, ?_⟩
  rintro _ ⟨⟩
  exact hc.next_inside

lemma PlacesAt.bind {k : α → Reader β} (hr : r.PlacesAt text c P)
    (hk : ∀ a c', c.Moves text c' → P a c' → (k a).PlacesAt text c' Q) :
    (r >>= k).PlacesAt text c Q := by
  intro hc
  obtain ⟨hok, herror⟩ := hr hc
  simp only [bind_apply]
  cases hrc : r c with
  | error e =>
    refine ⟨nofun, ?_⟩
    rintro _ ⟨⟩
    exact herror e hrc
  | ok read =>
    obtain ⟨a, c'⟩ := read
    obtain ⟨hmoves, ha⟩ := hok a c' hrc
    obtain ⟨hok', herror'⟩ := hk a c' hmoves ha hmoves.placed
    refine ⟨fun b c'' hb => ?_, herror'⟩
    obtain ⟨hmoves', hb⟩ := hok' b c'' hb
    exact ⟨hmoves.trans hmoves', hb⟩

lemma PlacesAt.fail_bind {fault : SyntaxFault} {span : Span} {k : α → Reader β}
    (h : c.Placed text → span.Inside text) :
    ((Reader.fail fault span : Reader α) >>= k).PlacesAt text c Q :=
  (PlacesAt.fail (P := fun _ _ => False) h).bind fun _ _ _ => False.elim

lemma PlacesAt.pure_bind {a : α} {k : α → Reader β} (h : (k a).PlacesAt text c Q) :
    ((Pure.pure a : Reader α) >>= k).PlacesAt text c Q := h

lemma PlacesAt.map {f : α → β} (hr : r.PlacesAt text c fun a c' => Q (f a) c') :
    (f <$> r).PlacesAt text c Q :=
  hr.bind fun _ _ _ ha => .pure ha

/-- What may be read, if it is read. -/
lemma PlacesAt.some {nestedIn : α → Span → Prop}
    (hr : r.PlacesAt text c fun a c' => c.Reads text c' ∧ nestedIn a (c.upTo c')) :
    (Option.some <$> r).PlacesAt text c fun a? c' =>
      c.Reads text c' ∧ ∀ a ∈ a?, nestedIn a (c.upTo c') := by
  refine .map (hr.mono fun a c' _ ⟨hreads, ha⟩ => ⟨hreads, ?_⟩)
  rintro _ ⟨⟩
  exact ha

lemma PlacesAt.bounded {r : Nat → Reader α} (h : ∀ n, (r n).PlacesAt text c P) :
    (Reader.bounded r).PlacesAt text c P := h _

variable {k : Unit → Reader α} {t : Token}

lemma PlacesAt.next {k : Lexeme → Reader α} (h : (k c.next).PlacesAt text c P) :
    (Reader.next >>= k).PlacesAt text c P := h

lemma PlacesAt.second {k : Option Token → Reader α} (h : ∀ t, (k t).PlacesAt text c P) :
    (Reader.second? >>= k).PlacesAt text c P := h _

lemma PlacesAt.last {k : Span → Reader α} (h : (k c.last).PlacesAt text c P) :
    (Reader.last >>= k).PlacesAt text c P := h

lemma PlacesAt.spanFrom {k : Span → Reader α} {start : Nat}
    (h : (k ⟨start, c.last.stop⟩).PlacesAt text c P) :
    (Reader.spanFrom start >>= k).PlacesAt text c P := h

lemma PlacesAt.advance (hnext : c.next.token ≠ .endOfFile)
    (h : ∀ c', c.Reads text c' → (k ()).PlacesAt text c' P) :
    (Reader.advance >>= k).PlacesAt text c P := by
  have hadvance : Reader.advance.PlacesAt text c fun _ c' => c.Reads text c' := by
    refine fun hc => ⟨?_, nofun⟩
    rintro _ _ ⟨⟩
    exact ⟨(hc.advance hnext).toMoves, hc.advance hnext⟩
  exact hadvance.bind fun _ c' _ => h c'

lemma PlacesAt.sees {y n : Reader α} (hy : y.PlacesAt text c P) (hn : n.PlacesAt text c P) :
    (Reader.sees t >>= fun b => if b = true then y else n).PlacesAt text c P := by
  intro hc
  rw [sees_bind]
  split
  · exact hy hc
  · exact hn hc

/-- A token that may come is moved over, or nothing happens. -/
lemma accept_placesAt (ht : t ≠ .endOfFile) : (Reader.accept t).PlacesAt text c fun b c' =>
    (b = true ∧ c.Reads text c') ∨ (b = false ∧ c' = c) := by
  intro hc
  rw [accept_apply]
  split
  · rename_i hnext
    have hreads := hc.advance (hnext ▸ ht)
    refine ⟨?_, nofun⟩
    rintro _ _ ⟨⟩
    exact ⟨hreads.toMoves, Or.inl ⟨rfl, hreads⟩⟩
  · refine ⟨?_, nofun⟩
    rintro _ _ ⟨⟩
    exact ⟨hc.refl, Or.inr ⟨rfl, rfl⟩⟩

lemma PlacesAt.accept {y n : Reader α} (ht : t ≠ .endOfFile)
    (hy : ∀ c', c.Reads text c' → y.PlacesAt text c' P) (hn : n.PlacesAt text c P) :
    (Reader.accept t >>= fun b => if b = true then y else n).PlacesAt text c P := by
  refine (accept_placesAt ht).bind ?_
  rintro _ c' - (⟨rfl, hreads⟩ | ⟨rfl, rfl⟩)
  · exact hy c' hreads
  · exact hn

lemma PlacesAt.possibly (ht : t ≠ .endOfFile) {k : Bool → Reader α}
    (h : ∀ b c', c.Moves text c' → (k b).PlacesAt text c' P) :
    (Reader.accept t >>= k).PlacesAt text c P :=
  (accept_placesAt ht).bind fun b c' hmoves _ => h b c' hmoves

lemma PlacesAt.expect {what : String} (ht : t ≠ .endOfFile)
    (h : ∀ c', c.Reads text c' → (k ()).PlacesAt text c' P) :
    (Reader.expect t what >>= k).PlacesAt text c P := by
  have hexpect : (Reader.expect t what).PlacesAt text c fun _ c' => c.Reads text c' := by
    intro hc
    by_cases hnext : c.next.token = t
    · rw [expect_apply_of_eq hnext]
      have hreads := hc.advance (hnext ▸ ht)
      refine ⟨?_, nofun⟩
      rintro _ _ ⟨⟩
      exact ⟨hreads.toMoves, hreads⟩
    · have hrun : Reader.expect t what c = Reader.unexpected what c := by
        rw [Reader.expect, sees_bind]
        simp [hnext]
      rw [hrun]
      exact PlacesAt.unexpected what hc
  exact hexpect.bind fun _ c' _ => h c'

lemma PlacesAt.ident {what : String} :
    (Reader.ident what).PlacesAt text c fun _ c' => c.Reads text c' := by
  refine .next ?_
  split
  · rename_i hname
    exact .advance (by simp [hname]) fun c' hreads => .pure hreads
  · exact .unexpected what

end Steps

/-! ### Repetitions -/

/-- A way for phrases to stand within spans, such that phrases in spans before one another are in
some order. -/
structure Nesting (nestedIn : α → Span → Prop) (before : α → α → Prop) : Prop where
  mono : ∀ {a s t}, nestedIn a s → s.Within t → nestedIn a t
  before : ∀ {a b s t}, nestedIn a s → nestedIn b t → s.Before t → before a b

section Repetitions

variable {nestedIn : α → Span → Prop} {before : α → α → Prop}

lemma siblings_nil (outer : Span) : Siblings nestedIn before [] outer := ⟨nofun, .nil⟩

lemma siblings_singleton {a : α} {outer : Span} (h : nestedIn a outer) :
    Siblings nestedIn before [a] outer :=
  ⟨List.forall_mem_singleton.mpr h, List.pairwise_singleton _ _⟩

/-- Phrases that are read are listed before those that are read behind them. -/
lemma Nesting.append (h : Nesting nestedIn before) {c c₁ c₂ c₃ : Cursor} {as bs : List α}
    (has : Siblings nestedIn before as (c.upTo c₁)) (hreads : c.Reads text c₁)
    (hbetween : c₁.Moves text c₂) (hbs : Siblings nestedIn before bs (c₂.upTo c₃))
    (hmoves : c₂.Moves text c₃) : Siblings nestedIn before (as ++ bs) (c.upTo c₃) where
  nested := by
    refine List.forall_mem_append.mpr ⟨fun a ha => ?_, fun b hb => ?_⟩
    · exact h.mono (has.nested a ha) (Cursor.upTo_within_left (hbetween.trans hmoves))
    · exact h.mono (hbs.nested b hb) (Cursor.upTo_within_right (hreads.toMoves.trans hbetween))
  inOrder := by
    refine List.pairwise_append.mpr ⟨has.inOrder, hbs.inOrder, fun a ha b hb => ?_⟩
    refine h.before (has.nested a ha) (hbs.nested b hb) ?_
    exact Nat.le_trans hreads.behind hbetween.next.start

variable {item : Reader α} (h : Nesting nestedIn before)
  (hitem : ∀ c, item.PlacesAt text c fun a c' => c.Reads text c' ∧ nestedIn a (c.upTo c'))
include h hitem

lemma untilTimes_placesAt (stop : Token → Bool) (n : Nat) (c : Cursor) :
    (untilTimes stop item n).PlacesAt text c fun as c' =>
      Siblings nestedIn before as (c.upTo c') := by
  induction n generalizing c with
  | zero => exact .pure (siblings_nil _)
  | succ n ih =>
    refine .next ?_
    dsimp only
    split
    · exact .pure (siblings_nil _)
    · refine (hitem c).bind fun a c₁ _ ⟨hreads, ha⟩ => (ih c₁).bind fun as c₂ hmoves has => .pure ?_
      exact h.append (siblings_singleton ha) hreads hreads.placed.refl has hmoves

lemma untilToken_placesAt (stop : Token → Bool) (c : Cursor) :
    (untilToken stop item).PlacesAt text c fun as c' =>
      Siblings nestedIn before as (c.upTo c') :=
  .bounded fun n => untilTimes_placesAt h hitem stop n c

lemma separatedTimes_placesAt {separator : Token} (hseparator : separator ≠ .endOfFile) (n : Nat)
    (c : Cursor) :
    (separatedTimes separator item n).PlacesAt text c fun as c' =>
      c.Reads text c' ∧ Siblings nestedIn before as (c.upTo c') := by
  induction n generalizing c with
  | zero =>
    exact (hitem c).bind fun a _ _ ⟨hreads, ha⟩ => .pure ⟨hreads, siblings_singleton ha⟩
  | succ n ih =>
    refine (hitem c).bind fun a c₁ _ ⟨hreads, ha⟩ => .accept hseparator (fun c₂ hcomma => ?_)
      (.pure ⟨hreads, siblings_singleton ha⟩)
    refine (ih c₂).bind fun as c₃ hmoves ⟨_, has⟩ => .pure ⟨?_, ?_⟩
    · exact (hreads.trans hcomma).moves hmoves
    · exact h.append (siblings_singleton ha) hreads hcomma.toMoves has hmoves

lemma separated_placesAt {separator : Token} (hseparator : separator ≠ .endOfFile) (c : Cursor) :
    (separated separator item).PlacesAt text c fun as c' =>
      c.Reads text c' ∧ Siblings nestedIn before as (c.upTo c') :=
  .bounded fun n => separatedTimes_placesAt h hitem hseparator n c

lemma listedTimes_placesAt (stop : Token) (n : Nat) (c : Cursor) :
    (listedTimes stop item n).PlacesAt text c fun as c' =>
      Siblings nestedIn before as (c.upTo c') := by
  induction n generalizing c with
  | zero => exact .pure (siblings_nil _)
  | succ n ih =>
    refine .next ?_
    dsimp only
    split
    · exact .pure (siblings_nil _)
    · refine (hitem c).bind fun a c₁ _ ⟨hreads, ha⟩ => .accept (by simp) (fun c₂ hcomma => ?_)
        (.pure (siblings_singleton ha))
      refine (ih c₂).bind fun as c₃ hmoves has => .pure ?_
      exact h.append (siblings_singleton ha) hreads hcomma.toMoves has hmoves

lemma listed_placesAt (stop : Token) (c : Cursor) :
    (listed stop item).PlacesAt text c fun as c' => Siblings nestedIn before as (c.upTo c') :=
  .bounded fun n => listedTimes_placesAt h hitem stop n c

end Repetitions

section Chains

variable {nestedIn : α → Span → Prop} {operand : Reader α} {operator : Token} {join : α → α → α}
  (hmono : ∀ a s t, nestedIn a s → s.Within t → nestedIn a t)
  (hjoin : ∀ a b s, nestedIn a s → nestedIn b s → nestedIn (join a b) s)
  (hoperand : ∀ c, operand.PlacesAt text c fun a c' => c.Reads text c' ∧ nestedIn a (c.upTo c'))
  (hoperator : operator ≠ .endOfFile)
include hmono hjoin hoperand hoperator

/-- What is joined from phrases within a span stands within it. -/
lemma chainTimes_placesAt {start c : Cursor} {left : α} (hreads : start.Reads text c)
    (hleft : nestedIn left (start.upTo c)) (n : Nat) :
    (chainTimes operator operand join left n).PlacesAt text c fun a c' =>
      start.Reads text c' ∧ nestedIn a (start.upTo c') := by
  induction n generalizing c left with
  | zero => exact .pure ⟨hreads, hleft⟩
  | succ n ih =>
    refine .accept hoperator (fun c₁ hmark => ?_) (.pure ⟨hreads, hleft⟩)
    refine (hoperand c₁).bind fun right c₂ _ ⟨hright, hrightIn⟩ => ?_
    have hall := (hreads.trans hmark).trans hright
    refine ih hall (hjoin _ _ _ (hmono _ _ _ hleft ?_) (hmono _ _ _ hrightIn ?_))
    · exact Cursor.upTo_within_left (hmark.trans hright).toMoves
    · exact Cursor.upTo_within_right (hreads.trans hmark).toMoves

lemma chain_placesAt (c : Cursor) :
    (chain operator operand join).PlacesAt text c fun a c' =>
      c.Reads text c' ∧ nestedIn a (c.upTo c') :=
  (hoperand c).bind fun _ _ _ ⟨hreads, hleft⟩ =>
    .bounded fun n => chainTimes_placesAt hmono hjoin hoperand hoperator hreads hleft n

end Chains

lemma keywords_placesAt (p : Keyword → Bool) (c : Cursor) :
    (keywords p).PlacesAt text c fun _ _ => True := by
  refine .bounded fun n => ?_
  induction n generalizing c with
  | zero => exact .pure trivial
  | succ n ih =>
    refine .next ?_
    split
    · rename_i htoken
      split
      · exact .advance (by simp [htoken]) fun c' _ => (ih c').bind fun _ _ _ _ => .pure trivial
      · exact .pure trivial
    · exact .pure trivial

end Reader

end Source

end Interop
