/-
# What has the form of the grammar is read

Declarations, namespaces and files are read from tokens of their form, if the token after them does
not go on with them.  Only a semicolon could, since one may end the body of a type.

Main result: `Item.readTo_completeTo`.
-/
import Interop.Proofs.Source.Completeness.Members
import Mathlib.Data.List.ReduceOption

namespace Interop.Source

open Reader

variable {ts us rest : List Token}

section Declarations

lemma ClassBody.readBase_reads {base : Option DottedName}
    (h : Marked (.symbol .colon) DottedName.Derives ts base)
    (hrest : nextOf rest = .symbol .leftBrace) :
    readBase.Reads (ts ++ rest) rest (·.map (·.withoutSpans) = base) := by
  cases h with
  | none => exact .accept_of_ne (by simp [hrest]) (.pure rfl)
  | some hname =>
    refine .accept_of_eq (by simp) ?_
    refine (DottedName.read_reads hname (by simp [hrest]) _).bind fun _ h => .next fun _ => ?_
    rw [if_neg (by simp [hrest])]
    exact .pure (by rw [Option.map_some, h])

lemma ClassBody.read_reads {typeName : String} {body : ClassBody} (h : Derives typeName ts body)
    (hrest : nextOf rest ≠ .symbol .semicolon) :
    (read typeName).Reads (ts ++ rest) rest (·.withoutSpans = body) := by
  obtain @⟨ts, us, vs, base, members, hbase, hmembers, hsemicolon⟩ := h
  simp only [List.append_assoc, List.cons_append]
  refine (readBase_reads hbase (nextOf_cons _ _)).bind fun _ hbase => .expect (by simp) ?_
  have hmember : (Member.read typeName).CompleteTo us.length Member.withoutSpans
      (Member.Derives typeName) fun _ => True :=
    fun _ _ _ _ h _ => Member.read_reads h
  have hread := untilToken_completeTo (· = .symbol .rightBrace) hmember
    (fun _ _ h => ⟨h.opens.ne_endOfFile, by simp [h.opens.ne_symbol], trivial⟩)
    us members (.symbol .rightBrace :: (vs ++ rest)) (Nat.le_refl _) hmembers (by simp)
  refine hread.bind fun _ hmembers => .expect (by simp) ?_
  refine .possibly (by simp) hsemicolon hrest fun _ => .pure ?_
  rw [withoutSpans, hbase, hmembers]

lemma EnumItem.Derives.opens {item : EnumItem} (h : Derives ts item) : (nextOf ts).Opens := by
  obtain @⟨ts, us, _, _, name, hattributes, -⟩ := h
  exact hattributes.opens (.word (.ident name))

/-- The tokens with which an item of an enum does not go on. -/
def EnumItem.Ends (t : Token) : Prop := t ≠ .symbol .assign ∧ EnumExpr.Ends t

lemma EnumItem.read_reads {item : EnumItem} (h : Derives ts item) (hrest : Ends (nextOf rest)) :
    read.Reads (ts ++ rest) rest (·.withoutSpans = item) := by
  obtain @⟨ts, us, _, value, name, hattributes, hvalue⟩ := h
  obtain ⟨hassign, hends⟩ := hrest
  simp only [List.append_assoc, List.cons_append]
  refine .next fun _ => (Attribute.readAll_reads hattributes (by simp)).bind fun _ _ => ?_
  refine (Reads.ident name).bind fun _ hname => ?_
  cases hvalue with
  | none =>
    refine .accept_of_ne hassign (.pure_bind (.spanFrom fun _ => .pure ?_))
    rw [withoutSpans, hname, Option.map_none]
  | @some us e he =>
    refine .accept_of_eq (by simp) ?_
    have hread : (some <$> EnumExpr.read).Reads (us ++ rest) rest
        (·.map (·.withoutSpans) = some e) :=
      .map ((EnumExpr.read_reads he hends).mono fun _ h => by rw [Option.map_some, h])
    refine hread.bind fun _ h => .spanFrom fun _ => .pure ?_
    rw [withoutSpans, hname, h]

/-- What follows the underlying type of an enum. -/
lemma EnumBody.readEnd_reads {items : List EnumItem} (hitems : Listed EnumItem.Derives ts items)
    (hus : Possibly (.symbol .semicolon) us) (hrest : nextOf rest ≠ .symbol .semicolon)
    (underlying : Option TypeExpr) :
    (do
      expect (.symbol .leftBrace) "'\x7b' after enum name"
      let items ← listed (.symbol .rightBrace) EnumItem.read
      expect (.symbol .rightBrace) "'\x7d' after enum items"
      let _ ← accept (.symbol .semicolon)
      return ⟨underlying, items⟩ : Reader EnumBody).Reads
    (.symbol .leftBrace :: (ts ++ .symbol .rightBrace :: (us ++ rest))) rest
    (·.withoutSpans = ⟨underlying.map (·.withoutSpans), items⟩) := by
  have hitem : EnumItem.read.CompleteTo ts.length EnumItem.withoutSpans EnumItem.Derives
      EnumItem.Ends :=
    fun _ _ _ _ h hrest => EnumItem.read_reads h hrest
  have hread := listed_completeTo (.symbol .rightBrace) hitem
    (fun _ _ h => ⟨h.opens.ne_endOfFile, h.opens.ne_symbol (by simp)⟩)
    (by simp [EnumItem.Ends, EnumExpr.Ends]) (by simp [EnumItem.Ends, EnumExpr.Ends]) (by simp)
    ts items (.symbol .rightBrace :: (us ++ rest)) (Nat.le_refl _) hitems (nextOf_cons _ _)
  refine .expect (by simp) (hread.bind fun _ hitems => .expect (by simp) ?_)
  refine .possibly (by simp) hus hrest fun _ => .pure ?_
  rw [withoutSpans, hitems]

lemma EnumBody.read_reads {body : EnumBody} (h : Derives ts body)
    (hrest : nextOf rest ≠ .symbol .semicolon) :
    read.Reads (ts ++ rest) rest (·.withoutSpans = body) := by
  obtain @⟨ts, us, vs, underlying, items, hunderlying, hitems, hsemicolon⟩ := h
  simp only [List.append_assoc, List.cons_append]
  cases hunderlying with
  | none =>
    exact .accept_of_ne (by simp) (.pure_bind (readEnd_reads hitems hsemicolon hrest none))
  | @some ts type htype =>
    refine .accept_of_eq (by simp) ?_
    have hread : (some <$> TypeExpr.read).Reads
        (ts ++ .symbol .leftBrace :: (us ++ .symbol .rightBrace :: (vs ++ rest)))
        (.symbol .leftBrace :: (us ++ .symbol .rightBrace :: (vs ++ rest)))
        (·.map (·.withoutSpans) = some type) :=
      .map ((TypeExpr.read_reads htype (by simp [TypeExpr.Ends])).mono fun _ h => by
        rw [Option.map_some, h])
    refine hread.bind fun underlying hunderlying => ?_
    rw [← hunderlying]
    exact readEnd_reads hitems hsemicolon hrest underlying

lemma TypeBody.Derives.exists_keyword {b : String × TypeBody} (h : Derives ts b) :
    ∃ k us, ts = .keyword k :: us ∧ k ∈ [.classKw, .structKw, .enumKw] := by
  cases h with
  | _ => exact ⟨_, _, rfl, by simp⟩

lemma TypeBody.read_reads {b : String × TypeBody} (h : Derives ts b)
    (hrest : nextOf rest ≠ .symbol .semicolon) :
    read.Reads (ts ++ rest) rest fun b' => (b'.1, b'.2.withoutSpans) = b := by
  cases h with
  | classBody hbody =>
    refine .next fun _ => .advance (by simp) ((Reads.ident _).bind ?_)
    rintro name rfl
    refine (ClassBody.read_reads hbody hrest).bind fun _ h => .pure ?_
    rw [withoutSpans, h]
  | structBody hbody =>
    refine .next fun _ => .advance (by simp) ((Reads.ident _).bind ?_)
    rintro name rfl
    refine (ClassBody.read_reads hbody hrest).bind fun _ h => .pure ?_
    rw [withoutSpans, h]
  | enumBody hbody =>
    refine .next fun _ => .advance (by simp) ((Reads.ident _).bind ?_)
    rintro name rfl
    refine (EnumBody.read_reads hbody hrest).bind fun _ h => .pure ?_
    rw [withoutSpans, h]

lemma TypeDecl.Derives.opens {decl : TypeDecl} (h : Derives ts decl) : (nextOf ts).Opens := by
  obtain @⟨ts, us, vs, _, _, _, _, _, hattributes, hmodifiers, -, hbody⟩ := h
  obtain ⟨k, ws, rfl, -⟩ := hbody.exists_keyword
  rw [List.append_assoc]
  exact hattributes.opens (.word (hmodifiers.isWord (.keyword k)))

lemma TypeDecl.Derives.ne_keyword {decl : TypeDecl} (h : Derives ts decl) {k : Keyword}
    (hk : k ∉ Keyword.modifiers ++ [.classKw, .structKw, .enumKw]) (rest : List Token) :
    nextOf (ts ++ rest) ≠ .keyword k := by
  obtain @⟨ts, us, vs, _, ks, _, _, _, ⟨hgroups⟩, hmodifiers, -, hbody⟩ := h
  obtain ⟨k', ws, rfl, hk'⟩ := hbody.exists_keyword
  rw [List.mem_append, not_or] at hk
  obtain - | ⟨⟨⟩⟩ := hgroups
  · obtain - | ⟨hmodifier⟩ := hmodifiers
    · rintro ⟨⟩
      exact hk.2 hk'
    · rintro ⟨⟩
      exact hk.1 hmodifier
  · simp

lemma TypeDecl.read_reads {decl : TypeDecl} (h : Derives ts decl)
    (hrest : nextOf rest ≠ .symbol .semicolon) :
    read.Reads (ts ++ rest) rest (·.withoutSpans = decl) := by
  obtain @⟨ts, us, vs, _, ks, v, name, body, hattributes, hmodifiers, hvisibility, hbody⟩ := h
  obtain ⟨k, ws, rfl, hk⟩ := hbody.exists_keyword
  have hword : (nextOf (us ++ (.keyword k :: ws ++ rest))).IsWord :=
    hmodifiers.isWord (.keyword k)
  have hmodifier : ∀ k' ∈ Keyword.modifiers, nextOf (.keyword k :: ws ++ rest) ≠ .keyword k' := by
    rintro k' hk' ⟨⟩
    simp only [List.mem_cons, List.not_mem_nil, or_false] at hk
    obtain rfl | rfl | rfl := hk <;> simp [Keyword.modifiers] at hk'
  simp only [List.append_assoc]
  refine .next fun _ =>
    (Attribute.readAll_reads hattributes (hword.ne_symbol _)).bind fun _ has => ?_
  refine (Keyword.readModifiers_reads hmodifiers hmodifier).bind fun _ hks => ?_
  refine (TypeBody.read_reads hbody hrest).bind fun b hb => .spanFrom fun _ => .pure ?_
  obtain ⟨rfl, rfl⟩ := Prod.mk.inj hb
  rw [withoutSpans, has, hks, Visibility.given_iff.mp hvisibility]

lemma Item.Derives.opens {item : Option Item} (h : Derives ts item) : (nextOf ts).Opens := by
  cases h with
  | directive _ => exact .word (.keyword _)
  | inNamespace _ _ => exact .word (.keyword _)
  | declared hdecl => exact hdecl.opens

section

variable {items : Reader (List Item)} {n : Nat}
  (hitems : items.CompleteTo n (fun is => Assembly.withoutSpans ⟨is⟩) Assembly.Derives
    (· = .symbol .rightBrace))
include hitems

lemma Item.readWith_completeTo :
    (readWith items).CompleteTo (n + 1) (Option.map Item.withoutSpans) Derives
      (· ≠ .symbol .semicolon) := by
  intro ts item rest hn h hrest
  cases h with
  | directive hname =>
    simp only [List.append_assoc, List.cons_append, List.nil_append]
    refine .accept_of_eq (by simp) ?_
    exact (DottedName.read_reads hname (by simp) _).bind fun _ _ => .expect (by simp) (.pure rfl)
  | @inNamespace ts us name is hname his =>
    have hus : us.length ≤ n := by
      simp only [List.cons_append, List.length_cons, List.length_append] at hn
      omega
    simp only [List.append_assoc, List.cons_append, List.nil_append]
    have hread : (readNamespace items).Reads (.keyword .namespaceKw ::
        (ts ++ .symbol .leftBrace :: (us ++ .symbol .rightBrace :: rest))) rest fun item =>
          item.withoutSpans = .inNamespace name.segments is.reduceOption .nowhere := by
      refine .next fun _ => .expect (by simp) ?_
      refine (DottedName.read_reads hname (by simp) _).bind fun _ hname => .expect (by simp) ?_
      refine (hitems us _ (.symbol .rightBrace :: rest) hus (.mk his) rfl).bind fun _ his => ?_
      refine .expect (by simp) (.spanFrom fun _ => .pure ?_)
      rw [DottedName.segments_of_withoutSpans hname]
      exact congrArg (inNamespace name.segments · .nowhere) (Assembly.mk.inj his)
    refine .accept_of_ne (by simp) (.sees (.map (hread.mono fun item h => ?_)))
    rw [Option.map_some, h]
  | declared hdecl =>
    have husing := hdecl.ne_keyword (k := .usingKw) (by simp [Keyword.modifiers]) rest
    have hnamespace := hdecl.ne_keyword (k := .namespaceKw) (by simp [Keyword.modifiers]) rest
    refine .accept_of_ne husing (.sees ?_)
    rw [decide_eq_false hnamespace]
    refine (TypeDecl.read_reads hdecl hrest).bind fun _ h => .pure ?_
    rw [← h]
    rfl

end

/-- Items up to a token that ends them are read, however deep namespaces are nested in them. -/
lemma Item.readTo_completeTo (stop : Token → Bool) (hstop : ∀ t, t.Opens → stop t = false)
    (n : Nat) :
    (readTo stop n).CompleteTo n (fun items => Assembly.withoutSpans ⟨items⟩) Assembly.Derives
      fun t => (t = .endOfFile ∨ stop t = true) ∧ t ≠ .symbol .semicolon := by
  induction n generalizing stop with
  | zero =>
    rintro _ _ rest hn ⟨- | ⟨hhead, -⟩⟩ -
    · exact .pure rfl
    · have := length_pos_of_nextOf hhead.opens.ne_endOfFile
      rw [List.length_append] at hn
      omega
  | succ n ih =>
    rintro ts _ rest hn ⟨hitems⟩ hrest
    have hinner : (readTo (· = .symbol .rightBrace) n).CompleteTo n
        (fun items => Assembly.withoutSpans ⟨items⟩) Assembly.Derives (· = .symbol .rightBrace) :=
      fun _ _ _ hn h hrest =>
        ih _ (fun _ ht => by simp [ht.ne_symbol]) _ _ _ hn h (by simp [hrest])
    have hread := untilToken_completeTo stop (readWith_completeTo hinner)
      (fun _ _ h => ⟨h.opens.ne_endOfFile, hstop _ h.opens, h.opens.ne_symbol (by simp)⟩)
      ts _ rest hn hitems hrest
    refine hread.bind fun items h => .pure ((Assembly.withoutSpans_mk _).trans ?_)
    rw [← h, List.reduceOption_map]

end Declarations

end Interop.Source
