/-
# Signatures

The signature of a function is a text: the name of the member and, in parentheses, the types of the
parameters, each behind the word for its direction.  The marks between these parts stand in none of
them, so the parts can be read back, and types are told by their texts: names of types are
identifiers with dots between them, no path belongs to two types of a model, and none that is passed
is the word of a built-in type.

Main results: `signature_eq_iff` and, in the model of a text, `written_eq_iff`.
-/
import Interop.Proofs.Model.UsableNames
import Interop.Proofs.Model.WrittenTypes

namespace Interop.Model

open Source

/-! ### Lists with marks between their parts -/

section Marks

variable {c : Char} {xs ys ss ts : List Char}

/-- A mark that stands in neither of two beginnings ends both. -/
lemma append_mark_inj (hx : c ∉ xs) (hy : c ∉ ys) (h : xs ++ c :: ss = ys ++ c :: ts) :
    xs = ys ∧ ss = ts := by
  induction xs generalizing ys with
  | nil =>
    cases ys with
    | nil => exact ⟨rfl, (List.cons.inj h).2⟩
    | cons y ys => exact absurd ((List.cons.inj h).1 ▸ List.mem_cons_self) hy
  | cons x xs ih =>
    cases ys with
    | nil => exact absurd ((List.cons.inj h).1 ▸ List.mem_cons_self) hx
    | cons y ys =>
      obtain ⟨rfl, htail⟩ := List.cons.inj h
      obtain ⟨rfl, rfl⟩ := ih (List.not_mem_of_not_mem_cons hx) (List.not_mem_of_not_mem_cons hy)
        htail
      exact ⟨rfl, rfl⟩

/-- Parts that are not empty, and in which a mark does not stand, are read back from a list in which
the mark comes first between two of them. -/
lemma intercalate_mark_inj {ls ls' : List (List Char)} (h : ∀ l ∈ ls, l ≠ [] ∧ c ∉ l)
    (h' : ∀ l ∈ ls', l ≠ [] ∧ c ∉ l)
    (heq : (c :: ss).intercalate ls = (c :: ss).intercalate ls') : ls = ls' := by
  have hne : ∀ {k : List Char} {ks}, k ≠ [] → (c :: ss).intercalate (k :: ks) ≠ [] := by
    intro k ks hk
    cases ks <;> simp [List.intercalate_cons_cons, hk]
  have hmark : ∀ k k' ks, c ∈ (c :: ss).intercalate (k :: k' :: ks) := by
    intro k k' ks
    simp [List.intercalate_cons_cons]
  induction ls generalizing ls' with
  | nil =>
    cases ls' with
    | nil => rfl
    | cons l' ls' => exact absurd heq.symm (hne (h' l' List.mem_cons_self).1)
  | cons l ls ih =>
    obtain ⟨⟨hl, hcl⟩, hls⟩ := List.forall_mem_cons.mp h
    cases ls' with
    | nil => exact absurd heq (hne hl)
    | cons l' ls' =>
      obtain ⟨⟨hl', hcl'⟩, hls'⟩ := List.forall_mem_cons.mp h'
      cases ls with
      | nil =>
        cases ls' with
        | nil => simpa using heq
        | cons k' ks' =>
          rw [List.intercalate_singleton] at heq
          exact absurd (heq ▸ hmark l' k' ks') hcl
      | cons k ks =>
        cases ls' with
        | nil =>
          rw [List.intercalate_singleton] at heq
          exact absurd (heq ▸ hmark l k ks) hcl'
        | cons k' ks' =>
          rw [List.intercalate_cons_cons, List.intercalate_cons_cons, List.append_assoc,
            List.append_assoc] at heq
          obtain ⟨rfl, hrest⟩ := append_mark_inj hcl hcl' heq
          rw [ih hls hls' (List.append_cancel_left hrest)]

end Marks

/-- What is told by one view of things is told by it of lists of them. -/
lemma map_eq_of_map_eq {α β γ : Type} {view : α → β} {told : α → γ} {xs ys : List α}
    (h : ∀ x ∈ xs, ∀ y ∈ ys, view x = view y → told x = told y) (heq : xs.map view = ys.map view) :
    xs.map told = ys.map told := by
  induction xs generalizing ys with
  | nil =>
    rw [List.map_nil, List.map_eq_nil_iff.mp heq.symm, List.map_nil]
  | cons x xs ih =>
    cases ys with
    | nil => cases heq
    | cons y ys =>
      obtain ⟨hhead, htail⟩ := List.cons.inj heq
      rw [List.map_cons, List.map_cons, h x List.mem_cons_self y List.mem_cons_self hhead,
        ih (fun x hx y hy => h x (List.mem_cons_of_mem _ hx) y (List.mem_cons_of_mem _ hy)) htail]

/-! ### Paths as text -/

section Paths

variable {p : TypePath}

/-- A path that is written without a dot is one name. -/
lemma TypePath.segments_of_dotted {word : String} (hword : '.' ∉ word.toList)
    (h : p.dotted = word) : p.segments = [word] := by
  subst h
  cases hsegments : p.segments with
  | nil => simp [segments] at hsegments
  | cons s ss =>
    cases ss with
    | nil => simp [dotted, hsegments]
    | cons s' ss =>
      rw [dotted, hsegments, String.toList_intercalate] at hword
      exact absurd (by simp [List.intercalate_cons_cons]) hword

lemma TypePath.isWordChar_or_dot (h : isIdentifier p.symbol = true) {c : Char}
    (hc : c ∈ p.dotted.toList) : isWordChar c = true ∨ c = '.' := by
  rw [dotted, String.toList_intercalate] at hc
  rcases mem_or_of_mem_intercalate _ hc with hdot | ⟨l, hl, hcl⟩
  · exact .inr (List.mem_singleton.mp hdot)
  · obtain ⟨s, hs, rfl⟩ := List.mem_map.mp hl
    exact .inl (isWordChar_of_mem h (mem_symbol_of_mem_segment hs hcl))

lemma TypePath.dotted_ne_empty (h : isIdentifier p.symbol = true) : p.dotted.toList ≠ [] := by
  intro hempty
  have hsegments : p.segments = [""] :=
    segments_of_dotted (by decide) (String.toList_inj.mp hempty)
  rw [symbol, hsegments] at h
  cases h

end Paths

/-! ### Types as text -/

/-- The types that have a word of their own. -/
def ManagedType.builtins : List ManagedType := .string :: Primitive.all.map .primitive

section Types

variable {a : Assembly} {t u : ManagedType}

/-- No path belongs to an enum and to a class. -/
lemma enum?_eq_none_of_class? {path : TypePath} {c : BoundClass}
    (hc : (BindingModel.ofAssembly a).class? path = some c) :
    (BindingModel.ofAssembly a).enum? path = none := by
  by_contra hsome
  obtain ⟨e, he⟩ := Option.ne_none_iff_exists'.mp hsome
  obtain ⟨hemem, rfl⟩ := BindingModel.mem_of_enum? he
  obtain ⟨hcmem, hpath⟩ := BindingModel.mem_of_class? hc
  have henum : (Draft.ofAssembly a).symbols.key? e.nativeName = some (.enumType e.path) :=
    (recorded_ofAssembly a).enums e hemem (e.nativeName, .enumType e.path) List.mem_cons_self
  have hclass : (Draft.ofAssembly a).symbols.key? c.nativeName = some (.classType c.path) :=
    (recorded_ofAssembly a).classes c hcmem
  -- the name made from the path has one owner
  rw [(nativeName_of_mem_enums hemem).1] at henum
  rw [(nativeName_of_mem_classes hcmem).1, hpath, henum] at hclass
  cases hclass

/-- A type that is passed has a word of its own, or the path of an enum or a class with a usable
name. -/
lemma builtin_or_path (h : (BindingModel.ofAssembly a).PassesOne t) :
    t ∈ ManagedType.builtins ∨
      ∃ path, t.namedPath? = some path ∧ t.text = path.dotted ∧ nameFault? path.symbol = none := by
  cases h with
  | primitive p => exact .inl (by cases p <;> decide)
  | string => exact .inl List.mem_cons_self
  | enum he =>
    obtain ⟨hmem, rfl⟩ := BindingModel.mem_of_enum? he
    obtain ⟨hname, hfault⟩ := nativeName_of_mem_enums hmem
    exact .inr ⟨_, rfl, rfl, hname ▸ hfault⟩
  | object hc _ =>
    obtain ⟨hmem, rfl⟩ := BindingModel.mem_of_class? hc
    obtain ⟨hname, hfault⟩ := nativeName_of_mem_classes hmem
    exact .inr ⟨_, rfl, rfl, hname ▸ hfault⟩

/-- A type that is passed is told by its path. -/
lemma eq_of_namedPath? {path : TypePath} (ht : (BindingModel.ofAssembly a).PassesOne t)
    (hu : (BindingModel.ofAssembly a).PassesOne u) (hpt : t.namedPath? = some path)
    (hpu : u.namedPath? = some path) : t = u := by
  have hkind : ∀ {t}, (BindingModel.ofAssembly a).PassesOne t → t.namedPath? = some path →
      t = .enum path ∧ (BindingModel.ofAssembly a).enum? path ≠ none ∨
        t = .object path ∧ (BindingModel.ofAssembly a).enum? path = none := by
    intro t h hpath
    cases h with
    | primitive p => cases hpath
    | string => cases hpath
    | enum he =>
      cases hpath
      exact .inl ⟨rfl, he ▸ Option.some_ne_none _⟩
    | object hc _ =>
      cases hpath
      exact .inr ⟨rfl, enum?_eq_none_of_class? hc⟩
  rcases hkind ht hpt with ⟨rfl, hsome⟩ | ⟨rfl, hnone⟩
  · rcases hkind hu hpu with ⟨rfl, -⟩ | ⟨-, hnone⟩
    · rfl
    · exact absurd hnone hsome
  · rcases hkind hu hpu with ⟨-, hsome⟩ | ⟨rfl, -⟩
    · exact absurd hnone hsome
    · rfl

lemma text_chars (h : (BindingModel.ofAssembly a).PassesOne t) :
    t.text.toList ≠ [] ∧ ∀ c ∈ t.text.toList, isWordChar c = true ∨ c = '.' := by
  rcases builtin_or_path h with hbuiltin | ⟨path, -, htext, hfault⟩
  · have hall : ∀ t ∈ ManagedType.builtins,
        t.text.toList ≠ [] ∧ t.text.toList.all isWordChar = true := by decide +kernel
    obtain ⟨hne, hword⟩ := hall t hbuiltin
    exact ⟨hne, fun c hc => .inl (List.all_eq_true.mp hword c hc)⟩
  · rw [htext]
    have hname := isIdentifier_of_nameFault? hfault
    exact ⟨TypePath.dotted_ne_empty hname, fun c => TypePath.isWordChar_or_dot hname⟩

/-- Marks that are neither letters nor dots nor brackets stand in no text of a type. -/
lemma notMem_text {c : Char} (hc : isWordChar c = false ∧ c ∉ ['.', '[', ']'])
    (h : (BindingModel.ofAssembly a).Passes t) : t.text.toList ≠ [] ∧ c ∉ t.text.toList := by
  have hone : ∀ {t}, (BindingModel.ofAssembly a).PassesOne t → c ∉ t.text.toList := by
    intro t ht hmem
    rcases (text_chars ht).2 c hmem with hword | rfl
    · exact absurd (hc.1.symm.trans hword) Bool.false_ne_true
    · exact hc.2 List.mem_cons_self
  cases h with
  | one h => exact ⟨(text_chars h).1, hone h⟩
  | array h =>
    rw [ManagedType.text, String.toList_append]
    refine ⟨List.append_ne_nil_of_right_ne_nil _ (by decide), fun hmem => ?_⟩
    rcases List.mem_append.mp hmem with hmem | hmem
    · exact hone h hmem
    · exact hc.2 (List.mem_cons_of_mem _ hmem)

/-- The type of a single value is told by its text. -/
lemma textOne_inj (ht : (BindingModel.ofAssembly a).PassesOne t)
    (hu : (BindingModel.ofAssembly a).PassesOne u) (hdt : t.NamesDeclared) (hdu : u.NamesDeclared)
    (h : t.text = u.text) : t = u := by
  have hwords : ∀ t ∈ ManagedType.builtins, '.' ∉ t.text.toList ∧
      ∀ u ∈ ManagedType.builtins, t.text = u.text → t = u := by decide +kernel
  -- a path that is written as a word of a built-in type would be that word
  have hapart : ∀ {t path}, t ∈ ManagedType.builtins → t.text = TypePath.dotted path →
      ¬ DottedName.IsDeclared ⟨path.segments, .nowhere⟩ := by
    intro t path hbuiltin htext hdeclared
    have hsegments := TypePath.segments_of_dotted (hwords t hbuiltin).1 htext.symm
    rcases List.mem_cons.mp hbuiltin with rfl | hprimitive
    · exact hdeclared.1 hsegments
    · obtain ⟨p, -, rfl⟩ := List.mem_map.mp hprimitive
      exact hdeclared.2 p hsegments
  rcases builtin_or_path ht with hbt | ⟨path, hpt, htext, hft⟩
  · rcases builtin_or_path hu with hbu | ⟨path, hpu, hutext, -⟩
    · exact (hwords t hbt).2 u hbu h
    · exact absurd (hdu path hpu) (hapart hbt (h.trans hutext))
  · rcases builtin_or_path hu with hbu | ⟨path', hpu, hutext, hfu⟩
    · exact absurd (hdt path hpt) (hapart hbu (h.symm.trans htext))
    · have hpath : path = path' := by
        rw [← TypePath.ofDotted_dotted (TypePath.dotFree_of_nameFault? hft),
          ← TypePath.ofDotted_dotted (TypePath.dotFree_of_nameFault? hfu), ← htext, h, hutext]
      subst hpath
      exact eq_of_namedPath? ht hu hpt hpu

/-- Types that are passed are told by their texts. -/
lemma text_inj (ht : (BindingModel.ofAssembly a).Passes t)
    (hu : (BindingModel.ofAssembly a).Passes u) (hdt : t.NamesDeclared) (hdu : u.NamesDeclared)
    (h : t.text = u.text) : t = u := by
  have hbracket : ∀ {t e}, (BindingModel.ofAssembly a).PassesOne t →
      t.text ≠ (ManagedType.array e).text := by
    intro t e hone htext
    have hmem : '[' ∈ t.text.toList := by
      rw [htext, ManagedType.text, String.toList_append]
      exact List.mem_append_right _ List.mem_cons_self
    rcases (text_chars hone).2 _ hmem with hword | hdot
    · cases hword
    · cases hdot
  cases ht with
  | one ht =>
    cases hu with
    | one hu => exact textOne_inj ht hu hdt hdu h
    | array _ => exact absurd h (hbracket ht)
  | array ht =>
    cases hu with
    | one hu => exact absurd h.symm (hbracket hu)
    | array hu =>
      rw [ManagedType.text, ManagedType.text, String.append_left_inj] at h
      rw [textOne_inj ht hu hdt hdu h]

end Types

/-! ### Signatures as text -/

lemma Direction.keyword?_inj {d d' : Direction} (h : d.keyword? = d'.keyword?) : d = d' := by
  revert h
  cases d <;> cases d' <;> decide

lemma Direction.chars_keyword? {d : Direction} {word : String} (h : d.keyword? = some word) :
    ' ' ∉ word.toList ∧ ',' ∉ word.toList := by
  cases d with
  | input => cases h
  | out =>
    cases h
    decide
  | ref =>
    cases h
    decide

namespace NativeFunction

lemma paramText_unmarked {p : BoundParam} (h : p.direction.keyword? = none) :
    paramText p = p.type.text := by
  rw [paramText, h]

lemma paramText_marked {p : BoundParam} {word : String} (h : p.direction.keyword? = some word) :
    paramText p = word ++ " " ++ p.type.text := by
  rw [paramText, h]

/-- A parameter in a signature is told by its direction and the text of its type. -/
lemma paramText_inj {p q : BoundParam} (hp : ' ' ∉ p.type.text.toList)
    (hq : ' ' ∉ q.type.text.toList) (h : paramText p = paramText q) :
    p.direction = q.direction ∧ p.type.text = q.type.text := by
  -- only the text of a parameter with a word holds a space
  have hspace : ∀ word text : String, ' ' ∈ (word ++ " " ++ text).toList := by simp
  cases hpword : p.direction.keyword? with
  | none =>
    cases hqword : q.direction.keyword? with
    | none =>
      rw [paramText_unmarked hpword, paramText_unmarked hqword] at h
      exact ⟨Direction.keyword?_inj (hpword.trans hqword.symm), h⟩
    | some word =>
      rw [paramText_unmarked hpword, paramText_marked hqword] at h
      exact absurd (h ▸ hspace word _) hp
  | some word =>
    cases hqword : q.direction.keyword? with
    | none =>
      rw [paramText_marked hpword, paramText_unmarked hqword] at h
      exact absurd (h ▸ hspace word _) hq
    | some word' =>
      rw [paramText_marked hpword, paramText_marked hqword] at h
      have hchars := congrArg String.toList h
      simp only [String.toList_append, List.append_assoc] at hchars
      obtain ⟨hwords, htexts⟩ := append_mark_inj (Direction.chars_keyword? hpword).1
        (Direction.chars_keyword? hqword).1 hchars
      rw [String.toList_inj.mp hwords, ← hqword] at hpword
      exact ⟨Direction.keyword?_inj hpword, String.toList_inj.mp htexts⟩

/-- What ends a parameter in a signature stands in none. -/
lemma chars_paramText {p : BoundParam} (h : p.type.text.toList ≠ [] ∧ ',' ∉ p.type.text.toList) :
    (paramText p).toList ≠ [] ∧ ',' ∉ (paramText p).toList := by
  cases hword : p.direction.keyword? with
  | none =>
    rw [paramText_unmarked hword]
    exact h
  | some word =>
    rw [paramText_marked hword]
    obtain ⟨-, hcomma⟩ := Direction.chars_keyword? hword
    simp only [String.toList_append, List.mem_append, not_or]
    exact ⟨List.append_ne_nil_of_right_ne_nil _ h.1, ⟨hcomma, by decide⟩, h.2⟩

end NativeFunction

section Functions

open NativeFunction (paramText)

variable {a : Assembly} {f g : NativeFunction}

/-- A member is a constructor, or has its name in the symbol. -/
lemma member_eq_of_mem_candidates {new : Declared} {c : Candidate × Nat}
    (hc : c ∈ new.candidates) : c.1.member = ".ctor" ∨ c.1.member = c.1.nativeMember := by
  rcases Declared.exports_or hc with ⟨span, hconstructor⟩ | ⟨body, -, m, -, hexports⟩
  · exact .inl (congrArg (·.member) hconstructor)
  · generalize c.1 = candidate at hexports
    cases hexports with
    | constructor _ span => exact .inl rfl
    | method _ span => exact .inr rfl
    | getter _ span => exact .inr rfl
    | setter _ span => exact .inr rfl

/-- The parenthesis of a signature stands in no member. -/
lemma parenthesis_notMem_member (hf : f ∈ (BindingModel.ofAssembly a).functions) :
    '(' ∉ f.member.toList := by
  obtain ⟨new, -, c, hc, -, hbind⟩ := exists_bindFunction hf
  have hbinding := isBinding_of_bindFunction hbind
  rw [hbinding.member]
  rcases member_eq_of_mem_candidates hc with hmember | hmember
  · rw [hmember]
    decide
  · rw [hmember]
    intro hmem
    have hsymbol : '(' ∈ f.symbol.toList := by
      rw [hbinding.symbol, TypePath.memberSymbol]
      split <;> simp [hmem]
    have hword := isWordChar_of_mem (isIdentifier_of_nameFault? hbinding.nameFault) hsymbol
    cases hword

/-- The texts of the parameters of a function, without the marks that end them. -/
lemma chars_params (hf : f ∈ (BindingModel.ofAssembly a).functions) :
    ∀ p ∈ f.params, ' ' ∉ p.type.text.toList ∧
      (paramText p).toList ≠ [] ∧ ',' ∉ (paramText p).toList := by
  intro p hp
  have hpasses := ((passes_of_mem_functions hf).1 p hp).1
  exact ⟨(notMem_text (by decide) hpasses).2,
    NativeFunction.chars_paramText (notMem_text (by decide) hpasses)⟩

/-- A parameter without its name, and with the text of its type. -/
def BoundParam.written (p : BoundParam) : Direction × String := (p.direction, p.type.text)

/-- A parameter without its name. -/
def BoundParam.unnamed (p : BoundParam) : Direction × ManagedType := (p.direction, p.type)

/-- Signatures are equal exactly if their members are, and if their parameters have the same
directions and texts of types. -/
lemma signature_eq_iff (hf : f ∈ (BindingModel.ofAssembly a).functions)
    (hg : g ∈ (BindingModel.ofAssembly a).functions) :
    f.signature = g.signature ↔
      f.member = g.member ∧ f.params.map (·.written) = g.params.map (·.written) := by
  have hchars : ∀ f : NativeFunction, f.signature.toList = f.member.toList ++
      '(' :: ([',', ' '].intercalate ((f.params.map paramText).map String.toList) ++ [')']) := by
    intro f
    simp [NativeFunction.signature, String.toList_intercalate]
  constructor
  · intro h
    have h := congrArg String.toList h
    rw [hchars, hchars] at h
    obtain ⟨hmember, hrest⟩ :=
      append_mark_inj (parenthesis_notMem_member hf) (parenthesis_notMem_member hg) h
    have htexts := intercalate_mark_inj
      (by simpa using fun p hp => (chars_params hf p hp).2)
      (by simpa using fun p hp => (chars_params hg p hp).2)
      (List.append_cancel_right hrest)
    rw [List.map_map, List.map_map] at htexts
    refine ⟨String.toList_inj.mp hmember, map_eq_of_map_eq (fun p hp q hq hpq => ?_) htexts⟩
    obtain ⟨hdirection, htext⟩ := NativeFunction.paramText_inj (chars_params hf p hp).1
      (chars_params hg q hq).1 (String.toList_inj.mp hpq)
    exact Prod.ext hdirection htext
  · rintro ⟨hmember, hparams⟩
    have htexts : f.params.map paramText = g.params.map paramText := by
      refine map_eq_of_map_eq (fun p _ q _ hpq => ?_) hparams
      obtain ⟨hdirection, htext⟩ := Prod.mk.inj hpq
      rw [paramText, paramText, hdirection, htext]
    rw [NativeFunction.signature, NativeFunction.signature, hmember, htexts]

/-- In the model of a text, parameters that are written in the same way are of the same type. -/
lemma written_eq_iff {source : String} (h : Assembly.ofText source = .ok a)
    (hf : f ∈ (BindingModel.ofAssembly a).functions)
    (hg : g ∈ (BindingModel.ofAssembly a).functions) :
    f.params.map (·.written) = g.params.map (·.written) ↔
      f.params.map (·.unnamed) = g.params.map (·.unnamed) := by
  constructor
  · refine map_eq_of_map_eq fun p hp q hq hpq => ?_
    obtain ⟨hdirection, htext⟩ := Prod.mk.inj hpq
    exact Prod.ext hdirection (text_inj ((passes_of_mem_functions hf).1 p hp).1
      ((passes_of_mem_functions hg).1 q hq).1 (namesDeclared_of_ofText h hf p hp)
      (namesDeclared_of_ofText h hg q hq) htext)
  · refine map_eq_of_map_eq fun p _ q _ hpq => ?_
    obtain ⟨hdirection, htype⟩ := Prod.mk.inj hpq
    exact Prod.ext hdirection (congrArg ManagedType.text htype)

end Functions

end Interop.Model
