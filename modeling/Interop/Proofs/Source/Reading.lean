/-
# What a reader may read

`SoundAt` says of a reader that whatever it reads at a place has a given form.  It comes with one
rule for each of the steps that readers are made of and one for each kind of repetition, so that a
reader of the grammar is followed step by step, without its places.  The form that is left to show
is that of the tokens read so far with those to come.

A place without a next token counts as standing before the end of the file.
-/
import Interop.Proofs.Source.Grammar
import Interop.Source.Cursor

namespace Interop.Source

/-- The tokens after a place. -/
def Cursor.tokens (c : Cursor) : List Token := c.rest.map (·.token)

/-- The first of the tokens to come. -/
def nextOf (ts : List Token) : Token := ts.headD .endOfFile

@[simp] lemma nextOf_nil : nextOf [] = .endOfFile := rfl

@[simp] lemma nextOf_cons (t : Token) (ts : List Token) : nextOf (t :: ts) = t := rfl

lemma length_pos_of_nextOf {ts : List Token} (h : nextOf ts ≠ .endOfFile) : 0 < ts.length :=
  List.length_pos_iff.mpr fun hts => h (by rw [hts, nextOf_nil])

/-- Tokens start with the same one whatever follows them, unless there are none. -/
lemma nextOf_append {ts : List Token} (h : nextOf ts ≠ .endOfFile) (us : List Token) :
    nextOf (ts ++ us) = nextOf ts := by
  cases ts with
  | nil => exact absurd rfl h
  | cons t ts => rfl

lemma nextOf_append_ne {ts us : List Token} {t : Token} (hts : nextOf ts ≠ t)
    (hus : nextOf us ≠ t) : nextOf (ts ++ us) ≠ t := by
  cases ts with
  | nil => exact hus
  | cons _ _ => exact hts

namespace Cursor

lemma token_next (c : Cursor) : c.next.token = nextOf c.tokens := by
  obtain ⟨last, _ | ⟨l, ls⟩⟩ := c <;> rfl

lemma tokens_eq_next_cons {c : Cursor} (h : c.next.token ≠ .endOfFile) :
    c.tokens = c.next.token :: c.advance.tokens := by
  obtain ⟨last, _ | ⟨l, ls⟩⟩ := c
  · exact absurd rfl h
  · have hl : l.token ≠ .endOfFile := h
    simp [tokens, next, advance, hl]

lemma tokens_advance {c : Cursor} {t : Token} {ts : List Token} (h : c.tokens = t :: ts)
    (ht : t ≠ .endOfFile) : c.advance.tokens = ts := by
  have hnext : c.next.token = t := by rw [token_next, h, nextOf_cons]
  have := tokens_eq_next_cons (hnext ▸ ht)
  rw [h, hnext] at this
  exact (List.cons.inj this).2.symm

@[simp] lemma length_tokens (c : Cursor) : c.tokens.length = c.rest.length := List.length_map _

end Cursor

namespace Reader

variable {α β γ : Type}

lemma bind_of_ok {r : Reader α} {f : α → Reader β} {c c' : Cursor} {a : α} (h : r c = .ok (a, c')) :
    (r >>= f) c = f a c' := by rw [bind_apply, h]

lemma exists_of_bind {r : Reader α} {f : α → Reader β} {c c'' : Cursor} {b : β}
    (h : (r >>= f) c = .ok (b, c'')) : ∃ a c', r c = .ok (a, c') ∧ f a c' = .ok (b, c'') := by
  rw [bind_apply] at h
  cases hr : r c with
  | error e => rw [hr] at h; cases h
  | ok ac => exact ⟨ac.1, ac.2, rfl, by rw [hr] at h; exact h⟩

lemma next_bind (f : Lexeme → Reader α) (c : Cursor) : (next >>= f) c = f c.next c := rfl

lemma sees_bind (t : Token) (f : Bool → Reader α) (c : Cursor) :
    (sees t >>= f) c = f (c.next.token = t) c := rfl

lemma accept_apply (t : Token) (c : Cursor) :
    accept t c = if c.next.token = t then .ok (true, c.advance) else .ok (false, c) := by
  rw [accept, sees_bind]
  split <;> simp_all [bind_apply, advance]

lemma expect_apply_of_eq {t : Token} {c : Cursor} (h : c.next.token = t) (what : String) :
    expect t what c = .ok ((), c.advance) := by
  rw [expect, sees_bind]
  simp [h, advance]

/-- Whatever `r` reads at `c` it reads from tokens of the form `p`, and it stays before the end of
the file. -/
def SoundAt (r : Reader α) (c : Cursor) (p : Phrase α) : Prop :=
  ∀ a c', r c = .ok (a, c') → ∃ ts, c.tokens = ts ++ c'.tokens ∧ .endOfFile ∉ ts ∧ p ts a

section SoundAt

variable {r : Reader α} {c : Cursor} {p : Phrase α} {q : Phrase β}

lemma SoundAt.mono {p' : Phrase α} (h : r.SoundAt c p) (hp : ∀ ts a, p ts a → p' ts a) :
    r.SoundAt c p' := by
  intro a c' hr
  obtain ⟨ts, hts, heof, ha⟩ := h a c' hr
  exact ⟨ts, hts, heof, hp ts a ha⟩

lemma SoundAt.pure {a : α} (h : p [] a) : (Pure.pure a : Reader α).SoundAt c p := by
  intro _ _ hr
  cases hr
  exact ⟨[], rfl, List.not_mem_nil, h⟩

lemma SoundAt.fail (fault : SyntaxFault) (span : Span) :
    (Reader.fail fault span : Reader α).SoundAt c p := by
  intro _ _ hr
  cases hr

lemma SoundAt.fail_bind {fault : SyntaxFault} {span : Span} {k : β → Reader α} :
    ((Reader.fail fault span : Reader β) >>= k).SoundAt c p := by
  intro _ _ hr
  cases hr

lemma SoundAt.unexpected (what : String) : (Reader.unexpected what : Reader α).SoundAt c p := by
  intro _ _ hr
  cases hr

/-- What is read by one reader after another has the form of both, one after the other. -/
lemma SoundAt.bind {k : α → Reader β} (hr : r.SoundAt c p)
    (hk : ∀ ts a c', p ts a → (k a).SoundAt c' fun us b => q (ts ++ us) b) :
    (r >>= k).SoundAt c q := by
  intro b c'' h
  obtain ⟨a, c', hrc, hkc⟩ := exists_of_bind h
  obtain ⟨ts, hts, heof, ha⟩ := hr a c' hrc
  obtain ⟨us, hus, heof', hb⟩ := hk ts a c' ha b c'' hkc
  exact ⟨ts ++ us, by rw [hts, hus, List.append_assoc], by simp [heof, heof'], hb⟩

lemma SoundAt.pure_bind {a : α} {k : α → Reader β} (h : (k a).SoundAt c q) :
    ((Pure.pure a : Reader α) >>= k).SoundAt c q := h

lemma SoundAt.map {f : α → β} (hr : r.SoundAt c fun ts a => q ts (f a)) :
    (f <$> r).SoundAt c q :=
  hr.bind fun _ _ _ ha => .pure (by simpa using ha)

/-- What is read behind a mark. -/
lemma SoundAt.marked {f : α → β} (mark : Token) (hr : r.SoundAt c fun ts a => q ts (f a)) :
    (some <$> r).SoundAt c fun ts v => Marked mark q (mark :: ts) (v.map f) :=
  .map (hr.mono fun _ _ ha => .some ha)

lemma SoundAt.bounded {r : Nat → Reader α} (h : ∀ n, (r n).SoundAt c p) :
    (Reader.bounded r).SoundAt c p := h _

variable {k : Unit → Reader α} {t : Token}

lemma SoundAt.next {k : Lexeme → Reader α} (h : (k c.next).SoundAt c p) :
    (Reader.next >>= k).SoundAt c p := h

lemma SoundAt.second {k : Option Token → Reader α} (h : ∀ t, (k t).SoundAt c p) :
    (Reader.second? >>= k).SoundAt c p := h _

lemma SoundAt.last {k : Span → Reader α} (h : ∀ s, (k s).SoundAt c p) :
    (Reader.last >>= k).SoundAt c p := h _

lemma SoundAt.spanFrom {k : Span → Reader α} {start : Nat} (h : ∀ s, (k s).SoundAt c p) :
    (Reader.spanFrom start >>= k).SoundAt c p := h _

/-- A token that is seen and then moved over is part of what is read. -/
lemma SoundAt.advance (hnext : c.next.token = t) (ht : t ≠ .endOfFile)
    (h : (k ()).SoundAt c.advance fun ts a => p (t :: ts) a) :
    (Reader.advance >>= k).SoundAt c p := by
  intro a c' hr
  obtain ⟨ts, hts, heof, ha⟩ := h a c' hr
  refine ⟨t :: ts, ?_, by simp [heof, ht.symm], ha⟩
  rw [Cursor.tokens_eq_next_cons (hnext ▸ ht), hts, hnext, List.cons_append]

lemma SoundAt.sees {y n : Reader α} (hy : y.SoundAt c p) (hn : n.SoundAt c p) :
    (Reader.sees t >>= fun b => if b = true then y else n).SoundAt c p := by
  intro a c' hr
  rw [sees_bind] at hr
  split at hr
  · exact hy a c' hr
  · exact hn a c' hr

lemma SoundAt.accept {y n : Reader α} (ht : t ≠ .endOfFile)
    (hy : ∀ c', y.SoundAt c' fun ts a => p (t :: ts) a) (hn : n.SoundAt c p) :
    (Reader.accept t >>= fun b => if b = true then y else n).SoundAt c p := by
  intro a c' hr
  rw [bind_apply, accept_apply] at hr
  by_cases hnext : c.next.token = t
  · rw [if_pos hnext] at hr
    exact SoundAt.advance (k := fun _ => y) hnext ht (hy _) a c' hr
  · rw [if_neg hnext] at hr
    exact hn a c' hr

lemma SoundAt.possibly (ht : t ≠ .endOfFile) {k : Bool → Reader α}
    (h : ∀ ts b c', Possibly t ts → (k b).SoundAt c' fun us a => p (ts ++ us) a) :
    (Reader.accept t >>= k).SoundAt c p := by
  intro a c' hr
  rw [bind_apply, accept_apply] at hr
  by_cases hnext : c.next.token = t
  · rw [if_pos hnext] at hr
    exact SoundAt.advance (k := fun _ => k true) hnext ht (h _ _ _ .present) a c' hr
  · rw [if_neg hnext] at hr
    exact h _ _ _ .absent a c' hr

lemma SoundAt.expect {what : String} (ht : t ≠ .endOfFile)
    (h : ∀ c', (k ()).SoundAt c' fun ts a => p (t :: ts) a) :
    (Reader.expect t what >>= k).SoundAt c p := by
  intro a c' hr
  obtain ⟨u, c₁, hexp, hk⟩ := exists_of_bind hr
  by_cases hnext : c.next.token = t
  · rw [expect_apply_of_eq hnext] at hexp
    cases hexp
    exact SoundAt.advance (k := k) hnext ht (h _) a c' hk
  · rw [Reader.expect, sees_bind] at hexp
    simp [hnext, Reader.unexpected, next_bind, Reader.fail] at hexp

lemma SoundAt.ident {what : String} : (Reader.ident what).SoundAt c Ident := by
  refine .next ?_
  split
  · rename_i name hname
    exact .advance hname (by simp) (.pure (.mk name))
  · exact .unexpected what

/-- An identifier that is seen is the one that is read. -/
lemma SoundAt.ident_of_next {what name : String} {k : String → Reader α}
    (hnext : c.next.token = .ident name)
    (h : (k name).SoundAt c.advance fun ts a => p (.ident name :: ts) a) :
    (Reader.ident what >>= k).SoundAt c p := by
  intro a c' hr
  have hident : Reader.ident what c = .ok (name, c.advance) := by
    rw [Reader.ident, next_bind, hnext]
    rfl
  rw [bind_of_ok hident] at hr
  exact SoundAt.advance (k := fun _ => k name) hnext (by simp) h a c' hr

end SoundAt

section Repetitions

variable {item : Reader α} {p : Phrase β} {f : α → β}
  (hitem : ∀ c, item.SoundAt c fun ts a => p ts (f a))
include hitem

lemma untilTimes_soundAt (stop : Token → Bool) (n : Nat) (c : Cursor) :
    (untilTimes stop item n).SoundAt c fun ts as => Many p ts (as.map f) := by
  induction n generalizing c with
  | zero => exact .pure .nil
  | succ n ih =>
    refine .next ?_
    dsimp only
    split
    · exact .pure .nil
    · refine (hitem c).bind fun ts a c' ha => (ih c').bind fun us as _ has => .pure ?_
      rw [List.append_nil]
      exact .cons ha has

lemma untilToken_soundAt (stop : Token → Bool) (c : Cursor) :
    (untilToken stop item).SoundAt c fun ts as => Many p ts (as.map f) :=
  .bounded fun n => untilTimes_soundAt hitem stop n c

lemma separatedTimes_soundAt {separator : Token} (hseparator : separator ≠ .endOfFile) (n : Nat)
    (c : Cursor) :
    (separatedTimes separator item n).SoundAt c fun ts as =>
      Separated separator p ts (as.map f) := by
  induction n generalizing c with
  | zero =>
    refine (hitem c).bind fun ts a _ ha => .pure ?_
    rw [List.append_nil]
    exact .one ha
  | succ n ih =>
    refine (hitem c).bind fun ts a _ ha => .accept hseparator (fun c' => ?_) (.pure ?_)
    · refine (ih c').bind fun us as _ has => .pure ?_
      rw [List.append_nil]
      exact .cons ha has
    · rw [List.append_nil]
      exact .one ha

lemma separated_soundAt {separator : Token} (hseparator : separator ≠ .endOfFile) (c : Cursor) :
    (separated separator item).SoundAt c fun ts as => Separated separator p ts (as.map f) :=
  .bounded fun n => separatedTimes_soundAt hitem hseparator n c

lemma listedTimes_soundAt (stop : Token) (n : Nat) (c : Cursor) :
    (listedTimes stop item n).SoundAt c fun ts as => Listed p ts (as.map f) := by
  induction n generalizing c with
  | zero => exact .pure .nil
  | succ n ih =>
    refine .next ?_
    dsimp only
    split
    · exact .pure .nil
    · refine (hitem c).bind fun ts a _ ha => .accept (by simp) (fun c' => ?_) (.pure ?_)
      · refine (ih c').bind fun us as _ has => .pure ?_
        rw [List.append_nil, List.map_cons]
        revert has
        generalize as.map f = bs
        rintro (_ | ⟨hlist, hlast⟩)
        · exact .list (.one ha) .present
        · rw [← List.cons_append, ← List.append_assoc]
          exact .list (.cons ha hlist) hlast
      · exact .list (.one ha) .absent

lemma listed_soundAt (stop : Token) (c : Cursor) :
    (listed stop item).SoundAt c fun ts as => Listed p ts (as.map f) :=
  .bounded fun n => listedTimes_soundAt hitem stop n c

end Repetitions

section Chains

variable {operand : Reader α} {p : Phrase α} {f : α → α} {join : α → α → α} {operator : Token}

lemma chainTimes_soundAt (hoperand : ∀ c, operand.SoundAt c fun ts a => p ts (f a))
    (hjoin : ∀ a b, f (join a b) = join (f a) (f b)) (hoperator : operator ≠ .endOfFile)
    {ts : List Token} {left : α} (hleft : Chain operator join p ts (f left)) (n : Nat)
    (c : Cursor) :
    (chainTimes operator operand join left n).SoundAt c fun us a =>
      Chain operator join p (ts ++ us) (f a) := by
  induction n generalizing c ts left with
  | zero => exact .pure (by rwa [List.append_nil])
  | succ n ih =>
    refine .accept hoperator (fun c' => ?_) (.pure (by rwa [List.append_nil]))
    refine (hoperand c').bind fun us right c'' hright => ?_
    have hchain : Chain operator join p (ts ++ operator :: us) (f (join left right)) := by
      rw [hjoin]
      exact .join hleft hright
    refine (ih hchain c'').mono fun vs a ha => ?_
    rwa [List.append_assoc, List.cons_append] at ha

lemma chain_soundAt (hoperand : ∀ c, operand.SoundAt c fun ts a => p ts (f a))
    (hjoin : ∀ a b, f (join a b) = join (f a) (f b)) (hoperator : operator ≠ .endOfFile)
    (c : Cursor) :
    (chain operator operand join).SoundAt c fun ts a => Chain operator join p ts (f a) :=
  (hoperand c).bind fun _ _ c' hleft =>
    .bounded fun n => chainTimes_soundAt hoperand hjoin hoperator (.one hleft) n c'

end Chains

end Reader

end Interop.Source
