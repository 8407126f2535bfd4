/-
# Dotted names in enum expressions

In an expression of an enum, an item may be written with the name of a type in front.  What that
means is found where the enum stands: `Other.X` is the item `X` of the enum that `Other` denotes
there (`Declared.itemMeant?`).  Binding looks at the last word only and takes it for an item of the
enum itself.  So the expressions of a bound enum have the values that are written (`written_value`)
as long as the names in front denote the enum, and other values if they do not
(`other_enum_misread`).
-/
import Interop.Proofs.Model.EnumItems
import Interop.Proofs.Model.Indexes
import Interop.Proofs.Model.WrittenTypes
import Interop.Proofs.Source.Language
import Interop.Proofs.Source.Lexing
import Interop.Proofs.Source.WrittenEnums

namespace Interop

open Source Model

namespace Source

/-! ### What is written -/

/-- The tokens of a text end with the end of the file, which comes only there. -/
lemma Lexeme.exists_tokens_of_ofText {source : String} {ls : List Lexeme}
    (h : ofText source = .ok ls) :
    ∃ ts, ls.map (·.token) = ts ++ [.endOfFile] ∧ .endOfFile ∉ ts := by
  obtain ⟨pieces, hrow, rfl⟩ := ofCharsAt_eq_ok_iff.mp h
  refine ⟨rowTokens pieces, map_token_ofRow pieces 0, ?_⟩
  clear h
  generalize source.toList = cs at hrow
  induction hrow with
  | nil => exact List.not_mem_nil
  | @cons p text rest pieces htakes _ ih =>
    rw [rowTokens_cons, List.mem_append, not_or]
    refine ⟨?_, ih⟩
    cases htakes.1 with
    | trivia _ => exact List.not_mem_nil
    | token hspelled =>
      intro hmem
      obtain rfl := List.mem_singleton.mp hmem
      cases hspelled

/-- The value of an expression as it is written, given what the names in it mean. -/
def WrittenExpr.value (means : List String → String → Option Int) :
    WrittenExpr → Except ExprFault Int
  | literal v => .ok v.toNat
  | item path name =>
    match means path name with
    | some v => .ok v
    | none => .error (.unknownItem name)
  | negate operand => do
    let negated := -(← operand.value means)
    if fits128 negated then .ok negated else .error .negationOverflow
  | shiftLeft left right => do
    let v ← left.value means
    let amount ← right.value means
    if amount < 0 ∨ 64 ≤ amount then .error (.shiftAmount amount)
    else
      let shifted := v * twoPow amount.toNat
      if fits128 shifted then .ok shifted else .error .shiftOverflow
  | bitOr left right => do
    let v ← left.value means
    let w ← right.value means
    return or128 v w

/-- The words in front make no difference where every name means what its last word is looked up
as. -/
lemma WrittenExpr.value_of_tree {means : List String → String → Option Int}
    {values : List (String × Int)} {w : WrittenExpr}
    (h : ∀ n ∈ w.names, ∀ v, values.lookup n.2 = some v → means n.1 n.2 = some v) :
    ∀ {v : Int}, w.tree.value values = .ok v → w.value means = .ok v := by
  induction w with
  | literal => exact id
  | item path name =>
    intro v hv
    rw [tree, EnumExpr.value] at hv
    cases hlookup : values.lookup name with
    | none =>
      rw [hlookup] at hv
      cases hv
    | some v' =>
      rw [hlookup] at hv
      rw [value, h (path, name) (List.mem_singleton_self _) v' hlookup]
      exact hv
  | negate operand ih =>
    intro v hv
    rw [tree, EnumExpr.value] at hv
    obtain ⟨u, hu, hv⟩ := exists_of_bind_ok hv
    rw [value, ih h hu]
    exact hv
  | shiftLeft left right ihleft ihright =>
    intro v hv
    rw [tree, EnumExpr.value] at hv
    obtain ⟨u, hu, hv⟩ := exists_of_bind_ok hv
    obtain ⟨amount, hamount, hv⟩ := exists_of_bind_ok hv
    rw [value, ihleft (fun n hn => h n (List.mem_append_left _ hn)) hu,
      ihright (fun n hn => h n (List.mem_append_right _ hn)) hamount]
    exact hv
  | bitOr left right ihleft ihright =>
    intro v hv
    rw [tree, EnumExpr.value] at hv
    obtain ⟨u, hu, hv⟩ := exists_of_bind_ok hv
    obtain ⟨u', hu', hv⟩ := exists_of_bind_ok hv
    rw [value, ihleft (fun n hn => h n (List.mem_append_left _ hn)) hu,
      ihright (fun n hn => h n (List.mem_append_right _ hn)) hu']
    exact hv

end Source

namespace Model

/-! ### What the names mean -/

/-- The value that an item of a declared enum has got. -/
def Declared.itemValue? (new : Declared) (name : String) : Option Int :=
  match new.decl.body with
  | .enumBody body =>
    match itemType body with
    | .ok underlying =>
      ((itemValues underlying [] 0 body.items).1.find? (·.1.name = name)).map (·.2)
    | .error _ => none
  | _ => none

/-- What a name in an expression of an enum means: an item of the enum, or of the one that the words
in front denote where the enum stands. -/
def Declared.itemMeant? (decls : List Declared) (new : Declared) :
    List String → String → Option Int
  | [], name => new.itemValue? name
  | word :: words, name =>
    (Declared.lookup? decls new.path.scope ⟨word :: words, .nowhere⟩).bind (·.itemValue? name)

/-- The words in front of a name denote the enum itself, if there are any. -/
def Declared.IsOwn (decls : List Declared) (new : Declared) (path : List String) : Prop :=
  path = [] ∨ Declared.lookup? decls new.path.scope ⟨path, .nowhere⟩ = some new

lemma Declared.itemMeant?_of_isOwn {decls : List Declared} {new : Declared} {path : List String}
    (h : new.IsOwn decls path) (name : String) :
    new.itemMeant? decls path name = new.itemValue? name := by
  rcases h with rfl | h
  · rfl
  · cases path with
    | nil => rfl
    | cons => rw [itemMeant?, h, Option.bind_some]

/-- Where all items have got values, the value of an item is the one that it has got. -/
lemma Declared.itemValue?_of_mem {new : Declared} {body : EnumBody} {underlying : Primitive}
    (hbody : new.decl.body = .enumBody body) (htype : itemType body = .ok underlying)
    {x : EnumItem × Int} (hx : x ∈ (itemValues underlying [] 0 body.items).1) :
    new.itemValue? x.1.name = some x.2 := by
  have hfit := (stops_itemValues (Draft.isIntegral_of_itemType htype) body.items).1
  rw [itemValue?, hbody]
  dsimp only
  rw [htype]
  dsimp only
  rw [(find?_eq_some_iff_of_nodup hfit.nodup).mpr ⟨hx, rfl⟩, Option.map_some]

lemma mem_of_lookup_environment {xs : List (EnumItem × Int)} {name : String} {v : Int}
    (h : (environment xs).lookup name = some v) : ∃ x ∈ xs, x.1.name = name ∧ x.2 = v := by
  obtain ⟨before, after, hsplit, -⟩ := List.lookup_eq_some_iff.mp h
  have hmem : (name, v) ∈ environment xs := by simp [hsplit]
  obtain ⟨x, hx, heq⟩ := List.mem_map.mp hmem
  obtain ⟨hname, hv⟩ := Prod.mk.inj heq
  exact ⟨x, hx, hname, hv⟩

/-- A file declares an enum, as it is written. -/
lemma exists_holdsEnum {source : String} {a : Assembly} {ls : List Lexeme} {ts : List Token}
    (hls : Lexeme.ofText source = .ok ls) (hts : ls.map (·.token) = ts ++ [.endOfFile])
    (h : Assembly.ofText source = .ok a) {new : Declared} (hnew : new ∈ (Declared.ofAssembly a).1)
    {body : EnumBody} (hbody : new.decl.body = .enumBody body) :
    ∃ items, HoldsEnum new.decl.withoutSpans items ts new.path.scope := by
  have hread : Assembly.ofLexemes ls = .ok a := by
    rw [Assembly.ofText, hls] at h
    exact h
  obtain ⟨ts', hts', heof⟩ := Lexeme.exists_tokens_of_ofText hls
  obtain rfl := List.append_cancel_right (hts.symm.trans hts')
  have hderives := Assembly.derives_of_ofLexemes hts heof hread
  have hmem : new.withoutSpans ∈ Declared.ofItems [] a.withoutSpans.items := by
    refine Declared.mem_ofItems ?_
    rw [declared_withoutSpans]
    exact List.mem_map_of_mem hnew
  generalize a.withoutSpans = b at hderives hmem
  cases hderives with
  | mk hitems =>
    have hbody' : new.withoutSpans.decl.body = .enumBody body.withoutSpans := by
      have : new.withoutSpans.decl.body = new.decl.body.withoutSpans := rfl
      rw [this, hbody]
      rfl
    obtain ⟨items, scope, hscope, hholds⟩ := HoldsEnum.exists_of_many hitems hmem hbody'
    exact ⟨items, hscope ▸ hholds⟩

/-- In a text, an item of a bound enum has the value of its expression as it is written, provided
that the names in front of items denote the enum. -/
theorem written_value {source : String} {a : Assembly} {ls : List Lexeme} {ts : List Token}
    (hls : Lexeme.ofText source = .ok ls) (hts : ls.map (·.token) = ts ++ [.endOfFile])
    (h : Assembly.ofText source = .ok a) {new : Declared} (hnew : new ∈ (Declared.ofAssembly a).1)
    {e : BoundEnum} (he : (BindingModel.ofAssembly a).enum? new.path = some e) :
    (∃ items, HoldsEnum new.decl.withoutSpans items ts new.path.scope) ∧
    ∀ items, HoldsEnum new.decl.withoutSpans items ts new.path.scope →
      ∀ i ∈ items, ∀ w, i.value = some w →
        (∀ n ∈ w.names, new.IsOwn (Declared.ofAssembly a).1 n.1) →
        ∃ v, w.value (new.itemMeant? (Declared.ofAssembly a).1) = .ok v ∧
          new.itemValue? i.name = some v ∧ ∀ b ∈ e.items, b.name = i.name → b.value = v := by
  obtain ⟨body, underlying, d, refused, hbody, htype, hdone, hkept⟩ := items_of_enum? hnew he
  refine ⟨exists_holdsEnum hls hts h hnew hbody, ?_⟩
  intro items hholds i hi w hw hown
  obtain ⟨hfit, hstops⟩ := stops_itemValues (Draft.isIntegral_of_itemType htype) body.items
  have hvalues {x : EnumItem × Int} := @Declared.itemValue?_of_mem new body underlying hbody htype x
  generalize itemValues underlying [] 0 body.items = run at hdone hkept hfit hstops hvalues
  obtain ⟨xs, fault?⟩ := run
  dsimp only at hdone hkept hfit hstops hvalues
  subst hdone
  -- the item that is written is one of those that have got values
  obtain ⟨_, hwritten⟩ := hholds.body
  have htree : body.items.map (·.withoutSpans) = items.map (·.tree) := by
    have hwithout : new.decl.withoutSpans.body = new.decl.body.withoutSpans := rfl
    rw [hwithout, hbody] at hwritten
    exact (EnumBody.mk.inj (TypeBody.enumBody.inj hwritten)).2
  cases hstops with
  | complete hitems =>
    have hmem : i.tree ∈ xs.map (·.1.withoutSpans) := by
      rw [← Function.comp_def EnumItem.withoutSpans Prod.fst, ← List.map_map, hitems, htree]
      exact List.mem_map_of_mem hi
    obtain ⟨x, hx, hitem⟩ := List.mem_map.mp hmem
    have hname : x.1.name = i.name := congrArg EnumItem.name hitem
    have hexpr : x.1.value.map (·.withoutSpans) = some w.tree :=
      (congrArg EnumItem.value hitem).trans (by rw [WrittenItem.tree, hw, Option.map_some])
    obtain ⟨expr, hvalue, hwithout⟩ := Option.map_eq_some_iff.mp hexpr
    obtain ⟨earlier, later, hsplit⟩ := List.append_of_mem hx
    have hv := hfit.valued earlier x later hsplit
    rw [valueAfter, hvalue] at hv
    dsimp only at hv
    rw [← value_withoutSpans, hwithout] at hv
    refine ⟨x.2, WrittenExpr.value_of_tree ?_ hv, hname ▸ hvalues hx, ?_⟩
    · -- the items that the expression names are among those before
      intro n hn v hlookup
      obtain ⟨y, hy, hyname, rfl⟩ := mem_of_lookup_environment hlookup
      rw [Declared.itemMeant?_of_isOwn (hown n hn), ← hyname]
      exact hvalues (hsplit ▸ List.mem_append_left _ hy)
    · intro b hb hbname
      obtain ⟨y, hy, hyname, hyvalue⟩ := hkept.exists_of_mem b hb
      have hsame : y.1.name = x.1.name := (hyname.trans hbname).trans hname.symm
      rw [← hyvalue, List.inj_on_of_nodup_map hfit.nodup hy hx hsame]

/-! ### Two texts -/

/-- A text with the tokens of a tree is read as that tree, and has its enums. -/
lemma exists_enum_of_derives {source : String} {ts : List Token} {b : Assembly} {new₀ : Declared}
    {e₀ : BoundEnum}
    (htokens : (Lexeme.ofText source).toOption.any (fun ls =>
      ls.map (·.token) = ts ++ [.endOfFile]) = true)
    (hb : Assembly.Derives ts b) (hnew : new₀ ∈ (Declared.ofAssembly b).1)
    (he : (BindingModel.ofAssembly b).enum? new₀.path = some e₀) :
    ∃ ls a new e, Lexeme.ofText source = .ok ls ∧ ls.map (·.token) = ts ++ [.endOfFile] ∧
      Assembly.ofText source = .ok a ∧ a.withoutSpans = b ∧
      (Declared.ofAssembly a).1.map (·.withoutSpans) = (Declared.ofAssembly b).1 ∧
      new ∈ (Declared.ofAssembly a).1 ∧ new.withoutSpans = new₀ ∧
      (BindingModel.ofAssembly a).enum? new.path = some e ∧ e.withoutSpan = e₀ := by
  cases hls : Lexeme.ofText source with
  | error e =>
    rw [hls] at htokens
    cases htokens
  | ok ls =>
    rw [hls] at htokens
    have hts := of_decide_eq_true htokens
    obtain ⟨a, hread, rfl⟩ := Assembly.exists_ofLexemes hts hb
    rw [declared_withoutSpans] at hnew ⊢
    obtain ⟨new, hmem, rfl⟩ := List.mem_map.mp hnew
    rw [ofAssembly_withoutSpans, BindingModel.enum?_withoutSpans] at he
    obtain ⟨e, hfound, rfl⟩ := Option.map_eq_some_iff.mp he
    refine ⟨ls, a, new, e, rfl, hts, ?_, rfl, rfl, hmem, rfl, hfound, rfl⟩
    rw [Assembly.ofText, hls]
    exact hread

lemma itemValue?_withoutSpans (new : Declared) (name : String) :
    new.withoutSpans.itemValue? name = new.itemValue? name := by
  have hbody : new.withoutSpans.decl.body = new.decl.body.withoutSpans := rfl
  rw [Declared.itemValue?, Declared.itemValue?, hbody]
  cases new.decl.body with
  | classBody | structBody => rfl
  | enumBody body =>
    have hitems : body.withoutSpans.items = body.items.map (·.withoutSpans) := rfl
    dsimp only [TypeBody.withoutSpans]
    rw [itemType_withoutSpans]
    cases itemType body with
    | error => rfl
    | ok underlying =>
      dsimp only
      rw [hitems, itemValues_withoutSpans, valuedWithoutSpans, List.find?_map, Option.map_map]
      rfl

/-- What names mean does not depend on places. -/
lemma itemMeant?_withoutSpans (decls : List Declared) (new : Declared) (path : List String)
    (name : String) :
    new.withoutSpans.itemMeant? (decls.map (·.withoutSpans)) path name =
      new.itemMeant? decls path name := by
  cases path with
  | nil => exact itemValue?_withoutSpans new name
  | cons word words =>
    have hlookup := lookup?_withoutSpans decls new.path.scope ⟨word :: words, .nowhere⟩
    rw [Declared.itemMeant?, Declared.itemMeant?]
    refine (congrArg (·.bind fun found => found.itemValue? name) hlookup).trans ?_
    rw [Option.bind_map]
    exact Option.bind_congr fun found _ => itemValue?_withoutSpans found name

/-- A public enum, as it is written. -/
lemma WrittenEnum.of_items (name : String) {ts : List Token} {items : List WrittenItem}
    (hitems : Separated (.symbol .comma) WrittenItem.Derives ts items) :
    WrittenEnum
      ⟨name, .enumBody ⟨none, items.map (·.tree)⟩, .publicAccess, false, [], .nowhere⟩
      (.keyword .publicKw :: .keyword .enumKw :: .ident name :: .symbol .leftBrace :: ts ++
        [.symbol .rightBrace]) items := by
  have h := @WrittenEnum.mk [] [.keyword .publicKw] [] (ts ++ []) [] [] [.publicKw] .publicAccess
    none items name (.mk .nil) (.cons (by decide) .nil) (.anyPublic (by decide)) .none
    (.list hitems .absent) .absent
  rw [List.append_nil] at h
  exact h

lemma WrittenItem.Derives.of_primary (name : String) {ts : List Token} {w : WrittenExpr}
    (h : WrittenExpr.Primary WrittenExpr.Derives ts w) :
    WrittenItem.Derives (.ident name :: .symbol .assign :: ts) ⟨name, some w⟩ :=
  @WrittenItem.Derives.mk [] _ _ _ name (.mk .nil) (.some (.mk (.one (.one (.primary h)))))

/-- An enum with the items `X = 2, Y = word.X`, as it is written. -/
def twoItems (word : String) : List WrittenItem :=
  [⟨"X", some (.literal 2)⟩, ⟨"Y", some (.item [word] "X")⟩]

/-- What is left of it in the tree of a file. -/
def twoItemsDecl : TypeDecl :=
  ⟨"E", .enumBody ⟨none, [⟨"X", some (.literal 2 .nowhere), .nowhere⟩,
    ⟨"Y", some (.item "X" .nowhere), .nowhere⟩]⟩, .publicAccess, false, [], .nowhere⟩

/-- What it is bound as. -/
def twoItemsBound : BoundEnum :=
  ⟨⟨[], "E"⟩, "E", .int32, false, [⟨"X", "E_X", 2⟩, ⟨"Y", "E_Y", 2⟩], .nowhere⟩

/-- What it is written with. -/
def twoItemsTokens (word : String) : List Token :=
  [.keyword .publicKw, .keyword .enumKw, .ident "E", .symbol .leftBrace, .ident "X",
    .symbol .assign, .integer 2, .symbol .comma, .ident "Y", .symbol .assign, .ident word,
    .symbol .dot, .ident "X", .symbol .rightBrace]

lemma writtenEnum_twoItems (word : String) :
    WrittenEnum twoItemsDecl (twoItemsTokens word) (twoItems word) := by
  have hpath : Separated (.symbol .dot) Ident [.ident word, .symbol .dot, .ident "X"]
      ([word] ++ ["X"]) := .cons (Ident.mk word) (.one (Ident.mk "X"))
  have hfirst := WrittenItem.Derives.of_primary "X" (.literal 2)
  have hsecond := WrittenItem.Derives.of_primary "Y" (.item hpath)
  exact WrittenEnum.of_items "E" (.cons hfirst (.one hsecond))

/-- In `E`, `E.X` is the item `X` before it. -/
theorem written_value_own :
    ∃ a new e v, Assembly.ofText "public enum E { X = 2, Y = E.X }" = .ok a ∧
      new ∈ (Declared.ofAssembly a).1 ∧ (BindingModel.ofAssembly a).enum? new.path = some e ∧
      WrittenExpr.value (new.itemMeant? (Declared.ofAssembly a).1) (.item ["E"] "X") = .ok v ∧
      ∀ b ∈ e.items, b.name = "Y" → b.value = v := by
  have htree : Assembly.Derives (twoItemsTokens "E") ⟨[.declared twoItemsDecl]⟩ :=
    @Assembly.derives_of_ofLexemes
      ((twoItemsTokens "E" ++ [Token.endOfFile]).map (⟨·, .nowhere⟩)) _ rfl (by decide) _ rfl
  obtain ⟨ls, a, new, e, hls, hts, ha, -, hdecls, hnew, hnew₀, he, -⟩ :=
    @exists_enum_of_derives "public enum E { X = 2, Y = E.X }" _ _ ⟨⟨[], "E"⟩, twoItemsDecl⟩
      twoItemsBound (by decide +kernel) htree (List.mem_singleton_self _) (by decide +kernel)
  have hpath : new.path = ⟨[], "E"⟩ := congrArg Declared.path hnew₀
  have hdecl : new.decl.withoutSpans = twoItemsDecl := congrArg Declared.decl hnew₀
  have hholds : HoldsEnum new.decl.withoutSpans (twoItems "E") (twoItemsTokens "E")
      new.path.scope := by
    rw [hpath, hdecl]
    exact .declared (writtenEnum_twoItems "E")
  obtain ⟨-, hall⟩ := written_value hls hts ha hnew he
  have hown : new.IsOwn (Declared.ofAssembly a).1 ["E"] := by
    -- the text declares nothing but the enum
    obtain ⟨only, honly, -⟩ := List.map_eq_singleton_iff.mp hdecls
    rw [honly] at hnew ⊢
    rw [← List.mem_singleton.mp hnew]
    refine .inr ?_
    have hfound : Declared.find? [new] ["E"] = some new := by
      simp [Declared.find?, TypePath.segments, hpath]
    rw [hpath]
    exact hfound
  obtain ⟨v, hv, -, hitems⟩ := hall _ hholds _ (List.mem_cons_of_mem _ (List.mem_singleton_self _))
    _ rfl (List.forall_mem_singleton.mpr hown)
  exact ⟨a, new, e, v, ha, hnew, he, hv, hitems⟩

/-- The item of another enum is taken for that of the enum itself. -/
theorem other_enum_misread :
    ∃ ls ts a new e items,
      Lexeme.ofText ("public enum Other { X = 1 } " ++
        "public enum E { X = 2, Y = Other.X }") = .ok ls ∧
      ls.map (·.token) = ts ++ [.endOfFile] ∧
      Assembly.ofText ("public enum Other { X = 1 } " ++
        "public enum E { X = 2, Y = Other.X }") = .ok a ∧
      new ∈ (Declared.ofAssembly a).1 ∧ (BindingModel.ofAssembly a).enum? new.path = some e ∧
      HoldsEnum new.decl.withoutSpans items ts new.path.scope ∧
      ⟨"Y", some (.item ["Other"] "X")⟩ ∈ items ∧
      WrittenExpr.value (new.itemMeant? (Declared.ofAssembly a).1) (.item ["Other"] "X") = .ok 1 ∧
      e.items.map (fun i => (i.name, i.value)) = [("X", 2), ("Y", 2)] ∧
      (BindingModel.ofAssembly a).errors = [] := by
  let other : TypeDecl :=
    ⟨"Other", .enumBody ⟨none, [⟨"X", some (.literal 1 .nowhere), .nowhere⟩]⟩, .publicAccess, false,
      [], .nowhere⟩
  let front : List Token := [.keyword .publicKw, .keyword .enumKw, .ident "Other",
    .symbol .leftBrace, .ident "X", .symbol .assign, .integer 1, .symbol .rightBrace]
  have hother : Assembly.Derives front ⟨[.declared other]⟩ :=
    @Assembly.derives_of_ofLexemes ((front ++ [Token.endOfFile]).map (⟨·, .nowhere⟩)) _ rfl
      (by decide) _ rfl
  have htree : Assembly.Derives (front ++ twoItemsTokens "Other")
      ⟨[.declared other, .declared twoItemsDecl]⟩ :=
    @Assembly.derives_of_ofLexemes
      ((front ++ twoItemsTokens "Other" ++ [Token.endOfFile]).map (⟨·, .nowhere⟩)) _ rfl
      (by decide) _ rfl
  obtain ⟨ls, a, new, e, hls, hts, ha, htext, hdecls, hnew, hnew₀, he, hbound⟩ :=
    @exists_enum_of_derives ("public enum Other { X = 1 } " ++
        "public enum E { X = 2, Y = Other.X }") _ _ ⟨⟨[], "E"⟩, twoItemsDecl⟩ twoItemsBound
      (by decide +kernel) htree (List.mem_cons_of_mem _ (List.mem_singleton_self _))
      (by decide +kernel)
  refine ⟨ls, _, a, new, e, twoItems "Other", hls, hts, ha, hnew, he, ?_,
    List.mem_cons_of_mem _ (List.mem_singleton_self _), ?_, ?_, ?_⟩
  · have hpath : new.path = ⟨[], "E"⟩ := congrArg Declared.path hnew₀
    have hdecl : new.decl.withoutSpans = twoItemsDecl := congrArg Declared.decl hnew₀
    rw [hpath, hdecl]
    generalize hall : (⟨[.declared other]⟩ : Assembly) = b at hother
    cases hother with
    | mk hmany => exact .behind hmany (.declared (writtenEnum_twoItems "Other"))
  · rw [WrittenExpr.value, ← itemMeant?_withoutSpans, hdecls, hnew₀]
    rfl
  · have hitems : e.withoutSpan.items = twoItemsBound.items := congrArg BoundEnum.items hbound
    exact congrArg (·.map fun i => (i.name, i.value)) hitems
  · have herrors := congrArg BindingModel.errors (ofAssembly_withoutSpans a)
    rw [htext] at herrors
    refine List.map_eq_nil_iff.mp (herrors.symm.trans ?_)
    decide +kernel

end Model

end Interop
