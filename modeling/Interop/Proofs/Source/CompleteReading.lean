/-
# What a reader is certain to read

`Reads` says of a reader that from given tokens it does read something, and which tokens it leaves.
It comes with one rule for each of the steps that readers are made of.  `CompleteTo` says that all
phrases of a form are read, whatever comes after them but the tokens that would go on with them;
it carries over from the reader of an item to the readers of its repetitions.
-/
import Interop.Proofs.Source.Reading

namespace Interop.Source

namespace Reader

variable {α β γ : Type}

/-- From the tokens `ts`, `r` reads something of which `q` holds, and leaves the tokens `rest`. -/
def Reads (r : Reader α) (ts rest : List Token) (q : α → Prop) : Prop :=
  ∀ c, c.tokens = ts → ∃ a c', r c = .ok (a, c') ∧ c'.tokens = rest ∧ q a

section Reads

variable {r : Reader α} {ts us rest : List Token} {t : Token} {q : α → Prop} {q' : β → Prop}

lemma Reads.mono {q' : α → Prop} (h : r.Reads ts rest q) (hq : ∀ a, q a → q' a) :
    r.Reads ts rest q' := by
  intro c hc
  obtain ⟨a, c', hr, hc', ha⟩ := h c hc
  exact ⟨a, c', hr, hc', hq a ha⟩

lemma Reads.pure {a : α} (h : q a) : (Pure.pure a : Reader α).Reads ts ts q :=
  fun c hc => ⟨a, c, rfl, hc, h⟩

lemma Reads.bind {k : α → Reader β} (hr : r.Reads ts us q)
    (hk : ∀ a, q a → (k a).Reads us rest q') : (r >>= k).Reads ts rest q' := by
  intro c hc
  obtain ⟨a, c', hrc, hc', ha⟩ := hr c hc
  obtain ⟨b, c'', hkc, hc'', hb⟩ := hk a ha c' hc'
  exact ⟨b, c'', by rw [bind_of_ok hrc, hkc], hc'', hb⟩

lemma Reads.assoc {g : α → Reader β} {k : β → Reader γ} {q : γ → Prop}
    (h : (r >>= fun a => g a >>= k).Reads ts rest q) : ((r >>= g) >>= k).Reads ts rest q := by
  intro c hc
  obtain ⟨a, c', hr, hc', ha⟩ := h c hc
  refine ⟨a, c', ?_, hc', ha⟩
  rw [← hr, bind_apply, bind_apply, bind_apply]
  cases r c <;> rfl

lemma Reads.pure_bind {a : α} {k : α → Reader β} (h : (k a).Reads ts rest q') :
    ((Pure.pure a : Reader α) >>= k).Reads ts rest q' := h

lemma Reads.map {f : α → β} (hr : r.Reads ts rest fun a => q' (f a)) :
    (f <$> r).Reads ts rest q' :=
  hr.bind fun _ ha => .pure ha

lemma Reads.bounded {r : Nat → Reader α} (h : (r ts.length).Reads ts rest q) :
    (Reader.bounded r).Reads ts rest q := by
  intro c hc
  rw [Reader.bounded, ← Cursor.length_tokens, hc]
  exact h c hc

variable {k : Unit → Reader α}

lemma Reads.next {k : Lexeme → Reader α} (h : ∀ span, (k ⟨nextOf ts, span⟩).Reads ts rest q) :
    (Reader.next >>= k).Reads ts rest q := by
  intro c hc
  have hl : c.next = ⟨nextOf ts, c.next.span⟩ := by rw [← hc, ← Cursor.token_next]
  rw [next_bind, hl]
  exact h _ c hc

lemma Reads.second {k : Option Token → Reader α} (h : (k ts[1]?).Reads ts rest q) :
    (Reader.second? >>= k).Reads ts rest q := by
  intro c hc
  have hk : (Reader.second? >>= k) c = k ts[1]? c := by
    rw [← hc, Cursor.tokens, List.getElem?_map]
    rfl
  rw [hk]
  exact h c hc

lemma Reads.last {k : Span → Reader α} (h : ∀ s, (k s).Reads ts rest q) :
    (Reader.last >>= k).Reads ts rest q := fun c hc => h c.last c hc

lemma Reads.spanFrom {k : Span → Reader α} {start : Nat} (h : ∀ s, (k s).Reads ts rest q) :
    (Reader.spanFrom start >>= k).Reads ts rest q := fun c hc => h _ c hc

lemma Reads.advance (ht : t ≠ .endOfFile) (h : (k ()).Reads ts rest q) :
    (Reader.advance >>= k).Reads (t :: ts) rest q :=
  fun c hc => h c.advance (Cursor.tokens_advance hc ht)

lemma Reads.sees {k : Bool → Reader α} (h : (k (nextOf ts = t)).Reads ts rest q) :
    (Reader.sees t >>= k).Reads ts rest q := by
  intro c hc
  rw [sees_bind, Cursor.token_next, hc]
  exact h c hc

lemma Reads.accept_of_eq {k : Bool → Reader α} (ht : t ≠ .endOfFile)
    (h : (k true).Reads ts rest q) : (Reader.accept t >>= k).Reads (t :: ts) rest q := by
  have haccept : (Reader.accept t).Reads (t :: ts) ts (· = true) := by
    intro c hc
    refine ⟨true, c.advance, ?_, Cursor.tokens_advance hc ht, rfl⟩
    rw [accept_apply, Cursor.token_next, hc, if_pos (nextOf_cons t ts)]
  exact haccept.bind fun _ ha => ha ▸ h

lemma Reads.accept_of_ne {k : Bool → Reader α} (hts : nextOf ts ≠ t)
    (h : (k false).Reads ts rest q) : (Reader.accept t >>= k).Reads ts rest q := by
  have haccept : (Reader.accept t).Reads ts ts (· = false) := by
    intro c hc
    refine ⟨false, c, ?_, hc, rfl⟩
    rw [accept_apply, Cursor.token_next, hc, if_neg hts]
  exact haccept.bind fun _ ha => ha ▸ h

lemma Reads.possibly {k : Bool → Reader α} (ht : t ≠ .endOfFile) (hus : Possibly t us)
    (hts : nextOf ts ≠ t) (h : ∀ b, (k b).Reads ts rest q) :
    (Reader.accept t >>= k).Reads (us ++ ts) rest q := by
  cases hus with
  | absent => exact .accept_of_ne hts (h false)
  | present => exact .accept_of_eq ht (h true)

lemma Reads.expect {what : String} (ht : t ≠ .endOfFile) (h : (k ()).Reads ts rest q) :
    (Reader.expect t what >>= k).Reads (t :: ts) rest q := by
  have hexpect : (Reader.expect t what).Reads (t :: ts) ts fun _ => True := by
    intro c hc
    refine ⟨(), c.advance, expect_apply_of_eq ?_ what, Cursor.tokens_advance hc ht, trivial⟩
    rw [Cursor.token_next, hc, nextOf_cons]
  exact hexpect.bind fun _ _ => h

lemma Reads.ident {what : String} (name : String) :
    (Reader.ident what).Reads (.ident name :: rest) rest (· = name) :=
  .next fun _ => .advance (by simp) (.pure rfl)

end Reads

/-- All phrases of the form `p` with at most `n` tokens are read by `r`, up to what `f` forgets, if
the next token satisfies `follow`. -/
def CompleteTo (n : Nat) (r : Reader α) (f : α → β) (p : Phrase β) (follow : Token → Prop) : Prop :=
  ∀ ts b rest, ts.length ≤ n → p ts b → follow (nextOf rest) → r.Reads (ts ++ rest) rest (f · = b)

section CompleteTo

variable {n : Nat} {item : Reader α} {f : α → β} {p : Phrase β} {follow : Token → Prop}

/-- A repetition reads all its items if no item can be mistaken for its end. -/
lemma untilTimes_reads {stop : Token → Bool} (hitem : item.CompleteTo n f p follow)
    (hopen : ∀ ts b, p ts b →
      nextOf ts ≠ .endOfFile ∧ stop (nextOf ts) = false ∧ follow (nextOf ts))
    {ts rest : List Token} {bs : List β} (hts : Many p ts bs) (hn : ts.length ≤ n)
    (hstop : nextOf rest = .endOfFile ∨ stop (nextOf rest) = true) (hrest : follow (nextOf rest))
    {m : Nat} (hm : ts.length ≤ m) :
    (untilTimes stop item m).Reads (ts ++ rest) rest (·.map f = bs) := by
  induction hts generalizing m with
  | nil =>
    cases m with
    | zero => exact .pure rfl
    | succ m =>
      refine .next fun _ => ?_
      rw [if_pos (by simpa using hstop)]
      exact .pure rfl
  | @cons ts us b bs hb hbs ih =>
    obtain ⟨heof, hgo, hfollow⟩ := hopen ts b hb
    have hlen : (ts ++ us).length = ts.length + us.length := List.length_append
    have hpos := length_pos_of_nextOf heof
    have hnext : nextOf (ts ++ (us ++ rest)) = nextOf ts := nextOf_append heof _
    -- the next item, or what comes after the last one, follows this item
    have hafter : follow (nextOf (us ++ rest)) := by
      cases hbs with
      | nil => exact hrest
      | @cons ts' _ b' _ hb' _ =>
        obtain ⟨heof', -, hfollow'⟩ := hopen ts' b' hb'
        rwa [List.append_assoc, nextOf_append heof']
    obtain ⟨m, rfl⟩ : ∃ k, m = k + 1 := Nat.exists_eq_add_one.mpr (by omega)
    rw [List.append_assoc]
    refine .next fun _ => ?_
    rw [if_neg (by simp [hnext, heof, hgo])]
    refine (hitem ts b _ (by omega) hb hafter).bind fun a ha => ?_
    refine (ih (by omega) (by omega)).bind fun as has => .pure ?_
    rw [List.map_cons, ha, has]

lemma untilToken_completeTo (stop : Token → Bool) (hitem : item.CompleteTo n f p follow)
    (hopen : ∀ ts b, p ts b →
      nextOf ts ≠ .endOfFile ∧ stop (nextOf ts) = false ∧ follow (nextOf ts)) :
    (untilToken stop item).CompleteTo n (List.map f) (Many p) fun t =>
      (t = .endOfFile ∨ stop t = true) ∧ follow t :=
  fun _ _ _ hn hts hrest =>
    .bounded (untilTimes_reads hitem hopen hts hn hrest.1 hrest.2 (by simp))

lemma separatedTimes_reads {separator : Token} (hitem : item.CompleteTo n f p follow)
    (hseparator : separator ≠ .endOfFile) (hfollow : follow separator)
    {ts rest : List Token} {bs : List β} (hts : Separated separator p ts bs) (hn : ts.length ≤ n)
    (hend : nextOf rest ≠ separator) (hrest : follow (nextOf rest)) {m : Nat}
    (hm : ts.length ≤ m) :
    (separatedTimes separator item m).Reads (ts ++ rest) rest (·.map f = bs) := by
  induction hts generalizing m with
  | @one ts b hb =>
    have hread := hitem ts b rest hn hb hrest
    cases m with
    | zero => exact hread.bind fun a ha => .pure (by rw [List.map_singleton, ha])
    | succ m =>
      refine hread.bind fun a ha => .accept_of_ne hend (.pure ?_)
      rw [List.map_singleton, ha]
  | @cons ts us b bs hb _ ih =>
    have hlen : (ts ++ separator :: us).length = ts.length + (us.length + 1) :=
      List.length_append
    obtain ⟨m, rfl⟩ : ∃ k, m = k + 1 := Nat.exists_eq_add_one.mpr (by omega)
    rw [List.append_assoc, List.cons_append]
    refine (hitem ts b (separator :: (us ++ rest)) (by omega) hb hfollow).bind fun a ha => ?_
    refine .accept_of_eq hseparator ?_
    refine (ih (by omega) (by omega)).bind fun as has => .pure ?_
    rw [List.map_cons, ha, has]

lemma separated_completeTo {separator : Token} (hitem : item.CompleteTo n f p follow)
    (hseparator : separator ≠ .endOfFile) (hfollow : follow separator) :
    (separated separator item).CompleteTo n (List.map f) (Separated separator p) fun t =>
      t ≠ separator ∧ follow t :=
  fun _ _ _ hn hts hrest =>
    .bounded (separatedTimes_reads hitem hseparator hfollow hts hn hrest.1 hrest.2 (by simp))

lemma listedTimes_reads_nil {stop : Token} {rest : List Token} (hstop : nextOf rest = stop)
    (m : Nat) : (listedTimes stop item m).Reads rest rest (· = []) := by
  cases m with
  | zero => exact .pure rfl
  | succ m =>
    refine .next fun _ => ?_
    rw [if_pos (by simp [hstop])]
    exact .pure rfl

lemma listedTimes_reads {stop : Token} (hitem : item.CompleteTo n f p follow)
    (hopen : ∀ ts b, p ts b → nextOf ts ≠ .endOfFile ∧ nextOf ts ≠ stop)
    (hcomma : follow (.symbol .comma)) (hstop : follow stop) (hne : stop ≠ .symbol .comma)
    {ts us rest : List Token} {bs : List β} (hts : Separated (.symbol .comma) p ts bs)
    (hus : Possibly (.symbol .comma) us) (hn : ts.length ≤ n) (hrest : nextOf rest = stop)
    {m : Nat} (hm : ts.length ≤ m) :
    (listedTimes stop item m).Reads (ts ++ (us ++ rest)) rest (·.map f = bs) := by
  induction hts generalizing m with
  | @one ts b hb =>
    obtain ⟨heof, hgo⟩ := hopen ts b hb
    have hpos := length_pos_of_nextOf heof
    have hnext : nextOf (ts ++ (us ++ rest)) = nextOf ts := nextOf_append heof _
    obtain ⟨m, rfl⟩ : ∃ k, m = k + 1 := Nat.exists_eq_add_one.mpr (by omega)
    refine .next fun _ => ?_
    rw [if_neg (by simp [hnext, heof, hgo])]
    cases hus with
    | absent =>
      refine (hitem ts b rest hn hb (hrest ▸ hstop)).bind fun a ha => ?_
      refine .accept_of_ne (hrest ▸ hne) (.pure ?_)
      rw [List.map_singleton, ha]
    | present =>
      refine (hitem ts b (.symbol .comma :: rest) hn hb hcomma).bind fun a ha => ?_
      refine .accept_of_eq (by simp) ((listedTimes_reads_nil hrest m).bind fun as has => .pure ?_)
      rw [has, List.map_singleton, ha]
  | @cons ts vs b bs hb _ ih =>
    obtain ⟨heof, hgo⟩ := hopen ts b hb
    have hlen : (ts ++ .symbol .comma :: vs).length = ts.length + (vs.length + 1) :=
      List.length_append
    obtain ⟨m, rfl⟩ : ∃ k, m = k + 1 := Nat.exists_eq_add_one.mpr (by omega)
    rw [List.append_assoc, List.cons_append]
    refine .next fun _ => ?_
    rw [if_neg (by simp [nextOf_append heof, heof, hgo])]
    refine (hitem ts b (.symbol .comma :: (vs ++ (us ++ rest))) (by omega) hb hcomma).bind
      fun a ha => .accept_of_eq (by simp) ?_
    refine (ih (by omega) (by omega)).bind fun as has => .pure ?_
    rw [List.map_cons, ha, has]

lemma listed_completeTo (stop : Token) (hitem : item.CompleteTo n f p follow)
    (hopen : ∀ ts b, p ts b → nextOf ts ≠ .endOfFile ∧ nextOf ts ≠ stop)
    (hcomma : follow (.symbol .comma)) (hstop : follow stop) (hne : stop ≠ .symbol .comma) :
    (listed stop item).CompleteTo n (List.map f) (Listed p) (· = stop) := by
  rintro _ _ rest hn (_ | ⟨hlist, hlast⟩) hrest
  · exact .bounded ((listedTimes_reads_nil hrest _).mono fun _ has => by rw [has, List.map_nil])
  · rw [List.length_append] at hn
    rw [List.append_assoc]
    exact .bounded (listedTimes_reads hitem hopen hcomma hstop hne hlist hlast (by omega) hrest
      (by simp))

/-- After the operands of a chain that are there, a reader of a chain stands behind them with what
they are joined to. -/
lemma exists_chainTimes {operand : Reader α} {p : Phrase α} {f : α → α} {join : α → α → α}
    {operator : Token} (hoperand : operand.CompleteTo n f p follow)
    (hjoin : ∀ a b, f (join a b) = join (f a) (f b)) (hoperator : operator ≠ .endOfFile)
    (hfollow : follow operator) {ts : List Token} {b : α} (hts : Chain operator join p ts b)
    (hn : ts.length ≤ n) (rest : List Token) (hrest : follow (nextOf rest)) (c : Cursor)
    (hc : c.tokens = ts ++ rest) :
    ∃ a c' m, chain operator operand join c = chainTimes operator operand join a m c' ∧
      f a = b ∧ c'.tokens = rest ∧ rest.length ≤ m := by
  induction hts generalizing rest with
  | @one ts b hb =>
    obtain ⟨a, c', hread, hc', ha⟩ := hoperand ts b rest hn hb hrest c hc
    refine ⟨a, c', c'.rest.length, ?_, ha, hc', by simp [← hc']⟩
    rw [chain, bind_of_ok hread]
    rfl
  | @join ts us b₁ b₂ _ hb ih =>
    have hlen : (ts ++ operator :: us).length = ts.length + (us.length + 1) := List.length_append
    rw [List.append_assoc, List.cons_append] at hc
    obtain ⟨a, c₁, m, hchain, ha, hc₁, hm⟩ := ih (by omega) (operator :: (us ++ rest)) hfollow hc
    rw [List.length_cons, List.length_append] at hm
    obtain ⟨m, rfl⟩ : ∃ k, m = k + 1 := Nat.exists_eq_add_one.mpr (by omega)
    obtain ⟨right, c₂, hread, hc₂, hright⟩ :=
      hoperand us b₂ rest (by omega) hb hrest c₁.advance (Cursor.tokens_advance hc₁ hoperator)
    have hnext : c₁.next.token = operator := by rw [Cursor.token_next, hc₁, nextOf_cons]
    refine ⟨join a right, c₂, m, ?_, by rw [hjoin, ha, hright], hc₂, by omega⟩
    rw [hchain, chainTimes, bind_apply, accept_apply, if_pos hnext]
    exact bind_of_ok hread

lemma chain_completeTo {operand : Reader α} {p : Phrase α} {f : α → α} {join : α → α → α}
    {operator : Token} (hoperand : operand.CompleteTo n f p follow)
    (hjoin : ∀ a b, f (join a b) = join (f a) (f b)) (hoperator : operator ≠ .endOfFile)
    (hfollow : follow operator) :
    (chain operator operand join).CompleteTo n f (Chain operator join p) fun t =>
      t ≠ operator ∧ follow t := by
  rintro ts b rest hn hts ⟨hend, hrest⟩ c hc
  obtain ⟨a, c', m, hchain, ha, hc', -⟩ :=
    exists_chainTimes hoperand hjoin hoperator hfollow hts hn rest hrest c hc
  refine ⟨a, c', ?_, hc', ha⟩
  rw [hchain]
  cases m with
  | zero => rfl
  | succ m =>
    have hnext : c'.next.token ≠ operator := by rwa [Cursor.token_next, hc']
    rw [chainTimes, bind_apply, accept_apply, if_neg hnext]
    rfl

end CompleteTo

end Reader

end Interop.Source
