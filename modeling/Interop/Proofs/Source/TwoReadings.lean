/-
# Two readings of the same tokens

Texts with the same tokens differ in the places of the tokens only.  Read side by side, they go the
same way: what is read differs in spans only, and what is refused is refused for the same fault.

Main definition: `Agrees` compares two runs.  Values are compared by what a function keeps of them:
trees without their spans, lexemes by their tokens, spans not at all.  It comes with a rule for each
of the steps that readers are made of and one for each kind of repetition.
-/
import Interop.Proofs.Source.Reading

namespace Interop.Source

variable {α β γ δ : Type}

/-- Two outcomes that differ in places only: values of which `f` keeps the same, with the same
tokens to come, or errors with the same fault. -/
inductive Alike (f : α → β) :
    Except SyntaxError (α × Cursor) → Except SyntaxError (α × Cursor) → Prop
  | ok {a a' : α} {c c' : Cursor} (hvalue : f a = f a') (htokens : c.tokens = c'.tokens) :
    Alike f (.ok (a, c)) (.ok (a', c'))
  | error {e e' : SyntaxError} (h : e.fault = e'.fault) : Alike f (.error e) (.error e')

namespace Reader

/-- From places with the same tokens two readers come to outcomes that differ in places only. -/
def Agrees (f : α → β) (r r' : Reader α) : Prop :=
  ∀ c c' : Cursor, c.tokens = c'.tokens → Alike f (r c) (r' c')

section Steps

variable {f : α → β} {g : γ → δ}

lemma Agrees.pure {a a' : α} (h : f a = f a') :
    Agrees f (Pure.pure a : Reader α) (Pure.pure a') :=
  fun _ _ htokens => .ok h htokens

lemma Agrees.fail (fault : SyntaxFault) (span span' : Span) :
    Agrees f (Reader.fail fault span) (Reader.fail fault span') :=
  fun _ _ _ => .error rfl

lemma Agrees.fail_bind (fault : SyntaxFault) (span span' : Span) {k k' : α → Reader γ} :
    Agrees g (Reader.fail fault span >>= k) (Reader.fail fault span' >>= k') :=
  fun _ _ _ => .error rfl

lemma Agrees.bind {r r' : Reader α} {k k' : α → Reader γ} (hr : Agrees f r r')
    (hk : ∀ a a', f a = f a' → Agrees g (k a) (k' a')) : Agrees g (r >>= k) (r' >>= k') := by
  intro c c' htokens
  have h := hr c c' htokens
  rw [bind_apply, bind_apply]
  generalize r c = x, r' c' = y at h
  cases h with
  | ok hvalue htokens => exact hk _ _ hvalue _ _ htokens
  | error hfault => exact .error hfault

/-- One reader after another, where the values of the first are the same. -/
lemma Agrees.bind_id {r r' : Reader α} {k k' : α → Reader γ} (hr : Agrees id r r')
    (hk : ∀ a, Agrees g (k a) (k' a)) : Agrees g (r >>= k) (r' >>= k') :=
  hr.bind fun a a' h => by
    cases (h : a = a')
    exact hk a

lemma Agrees.map {r r' : Reader α} {h : α → γ} (hr : Agrees f r r')
    (hh : ∀ a a', f a = f a' → g (h a) = g (h a')) : Agrees g (h <$> r) (h <$> r') :=
  hr.bind fun a a' ha => .pure (hh a a' ha)

lemma agrees_next : Agrees (·.token) next next := by
  intro c c' htokens
  refine .ok ?_ htokens
  rw [Cursor.token_next, Cursor.token_next, htokens]

lemma agrees_second : Agrees id second? second? := by
  intro c c' htokens
  refine .ok ?_ htokens
  have h := congrArg (·[1]?) htokens
  simpa [Cursor.tokens] using h

lemma agrees_last : Agrees (fun _ => ()) last last := fun _ _ htokens => .ok rfl htokens

lemma tokens_advance_eq {c c' : Cursor} (h : c.tokens = c'.tokens) :
    c.advance.tokens = c'.advance.tokens := by
  obtain ⟨last, ls⟩ := c
  obtain ⟨last', ls'⟩ := c'
  cases ls with
  | nil =>
    cases ls' with
    | nil => rfl
    | cons l' ls' => cases h
  | cons l ls =>
    cases ls' with
    | nil => cases h
    | cons l' ls' =>
      obtain ⟨htoken, hrest⟩ := List.cons.inj h
      simp only [Cursor.advance, htoken]
      split
      · exact h
      · exact hrest

lemma agrees_advance : Agrees id advance advance :=
  fun _ _ htokens => .ok rfl (tokens_advance_eq htokens)

lemma agrees_sees (t : Token) : Agrees id (sees t) (sees t) :=
  agrees_next.bind fun l l' h => .pure (by rw [h])

/-- The next token, whatever it is, is the same on both sides. -/
lemma Agrees.next {k k' : Lexeme → Reader γ}
    (h : ∀ t span span', Agrees g (k ⟨t, span⟩) (k' ⟨t, span'⟩)) :
    Agrees g (Reader.next >>= k) (Reader.next >>= k') :=
  agrees_next.bind fun l l' hl => by
    obtain ⟨t, span⟩ := l
    obtain ⟨t', span'⟩ := l'
    cases (hl : t = t')
    exact h t span span'

lemma Agrees.last {k k' : Span → Reader γ} (h : ∀ span span', Agrees g (k span) (k' span')) :
    Agrees g (Reader.last >>= k) (Reader.last >>= k') :=
  agrees_last.bind fun span span' _ => h span span'

lemma Agrees.spanFrom {start start' : Nat} {k k' : Span → Reader γ}
    (h : ∀ span span', Agrees g (k span) (k' span')) :
    Agrees g (Reader.spanFrom start >>= k) (Reader.spanFrom start' >>= k') :=
  Agrees.bind (f := fun _ => ()) (.last fun _ _ => .pure rfl) fun span span' _ => h span span'

lemma agrees_unexpected (what : String) : Agrees f (unexpected what) (unexpected what) :=
  .next fun _ _ _ => .fail _ _ _

lemma Agrees.advance {k k' : Unit → Reader γ} (h : Agrees g (k ()) (k' ())) :
    Agrees g (Reader.advance >>= k) (Reader.advance >>= k') :=
  agrees_advance.bind_id fun _ => h

lemma agrees_accept (t : Token) : Agrees id (accept t) (accept t) := by
  refine (agrees_sees t).bind_id fun seen => ?_
  cases seen
  · exact .pure rfl
  · exact .advance (.pure rfl)

lemma Agrees.accept {t : Token} {k k' : Bool → Reader γ} (htrue : Agrees g (k true) (k' true))
    (hfalse : Agrees g (k false) (k' false)) :
    Agrees g (Reader.accept t >>= k) (Reader.accept t >>= k') :=
  (agrees_accept t).bind_id fun accepted => by
    cases accepted
    · exact hfalse
    · exact htrue

lemma agrees_expect (t : Token) (what : String) : Agrees id (expect t what) (expect t what) := by
  refine (agrees_sees t).bind_id fun seen => ?_
  cases seen
  · exact agrees_unexpected what
  · exact agrees_advance

lemma Agrees.expect {t : Token} {what : String} {k k' : Unit → Reader γ}
    (h : Agrees g (k ()) (k' ())) :
    Agrees g (Reader.expect t what >>= k) (Reader.expect t what >>= k') :=
  (agrees_expect t what).bind_id fun _ => h

lemma agrees_ident (what : String) : Agrees id (ident what) (ident what) := by
  refine .next fun t _ _ => ?_
  cases t with
  | ident name => exact .advance (.pure rfl)
  | _ => exact agrees_unexpected what

lemma agrees_bounded {r r' : Nat → Reader α} (h : ∀ n, Agrees f (r n) (r' n)) :
    Agrees f (bounded r) (bounded r') := by
  intro c c' htokens
  have hlength : c.rest.length = c'.rest.length := by
    rw [← Cursor.length_tokens, ← Cursor.length_tokens, htokens]
  rw [bounded, bounded, hlength]
  exact h _ c c' htokens

end Steps

section Repetitions

variable {f : α → β} {item item' : Reader α}

lemma agrees_untilTimes (stop : Token → Bool) (hitem : Agrees f item item') (n : Nat) :
    Agrees (List.map f) (untilTimes stop item n) (untilTimes stop item' n) := by
  induction n with
  | zero => exact .pure rfl
  | succ n ih =>
    refine .next fun t _ _ => ?_
    dsimp only
    split
    · exact .pure rfl
    · exact hitem.bind fun a a' ha => ih.bind fun as as' has => .pure (by simp [ha, has])

lemma agrees_untilToken (stop : Token → Bool) (hitem : Agrees f item item') :
    Agrees (List.map f) (untilToken stop item) (untilToken stop item') :=
  agrees_bounded (agrees_untilTimes stop hitem)

lemma agrees_separatedTimes (separator : Token) (hitem : Agrees f item item') (n : Nat) :
    Agrees (List.map f) (separatedTimes separator item n) (separatedTimes separator item' n) := by
  induction n with
  | zero => exact hitem.bind fun a a' ha => .pure (by simp [ha])
  | succ n ih =>
    exact hitem.bind fun a a' ha =>
      .accept (ih.bind fun as as' has => .pure (by simp [ha, has])) (.pure (by simp [ha]))

lemma agrees_separated (separator : Token) (hitem : Agrees f item item') :
    Agrees (List.map f) (separated separator item) (separated separator item') :=
  agrees_bounded (agrees_separatedTimes separator hitem)

lemma agrees_listedTimes (stop : Token) (hitem : Agrees f item item') (n : Nat) :
    Agrees (List.map f) (listedTimes stop item n) (listedTimes stop item' n) := by
  induction n with
  | zero => exact .pure rfl
  | succ n ih =>
    refine .next fun t _ _ => ?_
    dsimp only
    split
    · exact .pure rfl
    · exact hitem.bind fun a a' ha =>
        .accept (ih.bind fun as as' has => .pure (by simp [ha, has])) (.pure (by simp [ha]))

lemma agrees_listed (stop : Token) (hitem : Agrees f item item') :
    Agrees (List.map f) (listed stop item) (listed stop item') :=
  agrees_bounded (agrees_listedTimes stop hitem)

lemma agrees_chainTimes {operator : Token} {join : α → α → α} (hitem : Agrees f item item')
    (hjoin : ∀ {a a' b b'}, f a = f a' → f b = f b' → f (join a b) = f (join a' b')) (n : Nat)
    {left left' : α} (hleft : f left = f left') :
    Agrees f (chainTimes operator item join left n) (chainTimes operator item' join left' n) := by
  induction n generalizing left left' with
  | zero => exact .pure hleft
  | succ n ih => exact .accept (hitem.bind fun a a' ha => ih (hjoin hleft ha)) (.pure hleft)

lemma agrees_chain {operator : Token} {join : α → α → α} (hitem : Agrees f item item')
    (hjoin : ∀ {a a' b b'}, f a = f a' → f b = f b' → f (join a b) = f (join a' b')) :
    Agrees f (chain operator item join) (chain operator item' join) :=
  hitem.bind fun _ _ ha => agrees_bounded fun n => agrees_chainTimes hitem hjoin n ha

lemma agrees_keywordsTimes (p : Keyword → Bool) (n : Nat) :
    Agrees id (keywordsTimes p n) (keywordsTimes p n) := by
  induction n with
  | zero => exact .pure rfl
  | succ n ih =>
    refine .next fun t _ _ => ?_
    cases t with
    | keyword k =>
      dsimp only
      split
      · exact .advance (ih.bind_id fun ks => .pure rfl)
      · exact .pure rfl
    | _ => exact .pure rfl

lemma agrees_keywords (p : Keyword → Bool) : Agrees id (keywords p) (keywords p) :=
  agrees_bounded (agrees_keywordsTimes p)

end Repetitions

end Reader

end Interop.Source
