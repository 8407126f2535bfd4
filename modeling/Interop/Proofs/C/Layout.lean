/-
# Layout and the generated files

The files for a model hold none of its spans.  Binding and reading do not look at them either, and
the tokens of a text stay the same when white space and comments are put in front of it and behind
its tokens.  So the layout of a text has no say in what is made of it.

Main results:
* `generate_withoutSpans`: files are generated from what a model holds apart from its spans;
* `layout_irrelevant`: from a text to the generated files.
-/
import Interop.Proofs.C.Declarations
import Interop.Proofs.Model.Places
import Interop.Proofs.Source.Independence
import Interop.Proofs.Source.Layout

namespace Interop

open Source Model

namespace Model

/-- Selecting takes no decision by a place. -/
lemma select_withoutSpans (m : BindingModel) (keep : TypePath → Bool) :
    m.withoutSpans.select keep = (m.select keep).withoutSpans := by
  have hfunctions : (m.functions.map (·.withoutSpan)).filter (fun f => keep f.owner) =
      (m.functions.filter fun f => keep f.owner).map (·.withoutSpan) := List.filter_map
  have hmentioned : ((m.functions.filter fun f => keep f.owner).map (·.withoutSpan)).flatMap
      (·.mentioned) = (m.functions.filter fun f => keep f.owner).flatMap (·.mentioned) :=
    List.flatMap_map _ _ _
  simp only [BindingModel.select, BindingModel.withoutSpans, hfunctions, hmentioned,
    List.filter_map, List.map_nil]
  rfl

lemma narrow_withoutSpans (m : BindingModel) (keep? : Option (TypePath → Bool)) :
    m.withoutSpans.narrow keep? = (m.narrow keep?).withoutSpans := by
  cases keep? with
  | none => rfl
  | some keep => exact select_withoutSpans m keep

end Model

namespace C

variable (m : BindingModel)

/-! ### The source -/

lemma boundEnum_withoutSpans (path : TypePath) :
    boundEnum m.withoutSpans path = (boundEnum m path).map (·.withoutSpan) := by
  rw [boundEnum, boundEnum, BindingModel.enum?_withoutSpans]
  cases m.enum? path <;> rfl

lemma slotOf_withoutSpans (type : ManagedType) : slotOf m.withoutSpans type = slotOf m type := by
  cases type with
  | enum path =>
    rw [slotOf, slotOf, boundEnum_withoutSpans]
    cases boundEnum m path <;> rfl
  | _ => rfl

lemma packParameter_withoutSpans (p : BoundParam) :
    packParameter m.withoutSpans p = packParameter m p := by
  obtain ⟨name, type, direction⟩ := p
  unfold packParameter
  rw [slotOf_withoutSpans]
  cases type with
  | enum path =>
    dsimp only
    rw [boundEnum_withoutSpans]
    cases boundEnum m path <;> rfl
  | _ => rfl

lemma unpack_withoutSpans (type : ManagedType) : unpack m.withoutSpans type = unpack m type := by
  unfold unpack
  rw [slotOf_withoutSpans]

def Stub.withoutSpan (s : Stub) : Stub := { s with function := s.function.withoutSpan }

lemma stubOf_withoutSpans (f : NativeFunction) :
    Stub.of m.withoutSpans f.withoutSpan = (Stub.of m f).map (·.withoutSpan) := by
  have hparams : f.withoutSpan.params.mapM (packParameter m.withoutSpans) =
      f.params.mapM (packParameter m) :=
    congrArg (f.params.mapM ·) (funext (packParameter_withoutSpans m))
  have hreturns : unpack m.withoutSpans f.withoutSpan.returns = unpack m f.returns :=
    unpack_withoutSpans m f.returns
  unfold Stub.of
  rw [hparams, hreturns]
  cases f.params.mapM (packParameter m) with
  | error fault => rfl
  | ok params => cases unpack m f.returns <;> rfl

lemma stubs_withoutSpans : stubs m.withoutSpans = (stubs m).map (List.map (·.withoutSpan)) := by
  have hstubs : ∀ fs : List NativeFunction,
      (fs.map (·.withoutSpan)).mapM (Stub.of m.withoutSpans) =
        (fs.mapM (Stub.of m)).map (List.map (·.withoutSpan)) := by
    intro fs
    induction fs with
    | nil => rfl
    | cons f fs ih =>
      rw [List.map_cons, List.mapM_cons, List.mapM_cons, stubOf_withoutSpans, ih]
      cases Stub.of m f with
      | error fault => rfl
      | ok s => cases fs.mapM (Stub.of m) <;> rfl
  exact hstubs m.functions

lemma source_withoutSpans (o : Options) : source o m.withoutSpans = source o m := by
  unfold source
  rw [stubs_withoutSpans]
  cases stubs m with
  | error fault => rfl
  | ok ss =>
    have hlines : (ss.map (·.withoutSpan)).flatMap (fun s => "" :: s.lines o.apiMacro) =
        ss.flatMap fun s => "" :: s.lines o.apiMacro := List.flatMap_map _ _ _
    dsimp only [Except.map, bind, Except.bind]
    rw [hlines]

/-! ### The header -/

def Section.withoutSpans : Section → Section
  | enumType e => enumType e.withoutSpan
  | prototypes owner functions => prototypes owner (functions.map (·.withoutSpan))
  | handleTypes names => handleTypes names
  | arrayTypes elements => arrayTypes elements

lemma lines_withoutSpans (api : String) (s : Section) : s.withoutSpans.lines api = s.lines api := by
  cases s with
  | prototypes owner functions =>
    exact congrArg (s!"/* {owner.dotted} */" :: ·) List.map_map
  | _ => rfl

lemma functionsOf_withoutSpans (path : TypePath) :
    m.withoutSpans.functionsOf path = (m.functionsOf path).map (·.withoutSpan) :=
  List.filter_map

lemma handles_withoutSpans : (m.withoutSpans.classes.filter (!·.isStatic)).map (·.nativeName) =
    (m.classes.filter (!·.isStatic)).map (·.nativeName) := by
  rw [BindingModel.withoutSpans, List.filter_map, List.map_map]
  rfl

lemma arrayElements_withoutSpans : m.withoutSpans.arrayElements = m.arrayElements := by
  rw [BindingModel.arrayElements, BindingModel.withoutSpans, List.flatMap_map]
  rfl

lemma sections_withoutSpans : sections m.withoutSpans = (sections m).map (·.withoutSpans) := by
  have henums : (m.withoutSpans.enums.map Section.enumType) =
      (m.enums.map Section.enumType).map (·.withoutSpans) := by
    rw [BindingModel.withoutSpans, List.map_map, List.map_map]
    rfl
  have hclasses : m.withoutSpans.classes = m.classes.map (·.withoutSpan) := rfl
  have hprototypes : m.withoutSpans.classes.filterMap (fun c =>
      if (m.withoutSpans.functionsOf c.path).isEmpty then none
      else some (Section.prototypes c.path (m.withoutSpans.functionsOf c.path))) =
      (m.classes.filterMap fun c =>
        if (m.functionsOf c.path).isEmpty then none
        else some (Section.prototypes c.path (m.functionsOf c.path))).map (·.withoutSpans) := by
    simp only [functionsOf_withoutSpans, List.isEmpty_map, hclasses, List.filterMap_map,
      List.map_filterMap]
    refine List.filterMap_congr fun c _ => ?_
    have hpath : c.withoutSpan.path = c.path := rfl
    rw [Function.comp_apply, hpath]
    split <;> rfl
  unfold sections
  dsimp only
  rw [henums, handles_withoutSpans, arrayElements_withoutSpans, hprototypes]
  simp only [List.map_append, apply_ite (List.map Section.withoutSpans), List.map_cons,
    List.map_nil]
  rfl

lemma header_withoutSpans (o : Options) : header o m.withoutSpans = header o m := by
  have hlines : (sections m.withoutSpans).flatMap (fun s => s.lines o.apiMacro ++ [""]) =
      (sections m).flatMap fun s => s.lines o.apiMacro ++ [""] := by
    rw [sections_withoutSpans, List.flatMap_map]
    exact List.flatMap_congr fun s _ => by rw [lines_withoutSpans]
  unfold header
  dsimp only
  rw [hlines]

/-- Files are generated without a look at places. -/
theorem generate_withoutSpans (o : Options) : generate o m.withoutSpans = generate o m := by
  unfold generate
  rw [source_withoutSpans, header_withoutSpans]

/-! ### From a text to its files -/

/-- Two trees that differ in spans only, and so do their models.  The errors have the same faults,
and with them the same wordings.  The files for the models, and for what is selected of them, are
the same. -/
structure SameProducts (a a' : Assembly) : Prop where
  tree : a.withoutSpans = a'.withoutSpans
  model : (BindingModel.ofAssembly a).withoutSpans = (BindingModel.ofAssembly a').withoutSpans
  faults : (BindingModel.ofAssembly a).errors.map (·.fault) =
    (BindingModel.ofAssembly a').errors.map (·.fault)
  files : ∀ (o : Options) (keep? : Option (TypePath → Bool)),
    generate o ((BindingModel.ofAssembly a).narrow keep?) =
      generate o ((BindingModel.ofAssembly a').narrow keep?)

lemma faults_withoutSpans : m.withoutSpans.errors.map (·.fault) = m.errors.map (·.fault) :=
  List.map_map

/-- All that is made of a tree is made without its spans. -/
lemma SameProducts.of_tree {a a' : Assembly} (h : a.withoutSpans = a'.withoutSpans) :
    SameProducts a a' := by
  have hmodel : (BindingModel.ofAssembly a).withoutSpans =
      (BindingModel.ofAssembly a').withoutSpans := by
    rw [← ofAssembly_withoutSpans, ← ofAssembly_withoutSpans, h]
  refine ⟨h, hmodel, ?_, fun o keep? => ?_⟩
  · rw [← faults_withoutSpans, hmodel, faults_withoutSpans]
  · rw [← generate_withoutSpans, ← narrow_withoutSpans, hmodel, narrow_withoutSpans,
      generate_withoutSpans]

/-- White space and comments in front of a text and behind its tokens change nothing but spans: not
the tokens, and not the fault for which the text is refused or else its tree, the model and the
files. -/
theorem layout_irrelevant {source source' : String} {ls : List Lexeme} {pad : Nat → List Char}
    (h : Lexeme.ofText source = .ok ls) (hpad : ∀ k, Padding (pad k))
    (hplaces : ∀ k, pad k ≠ [] → IsPlace source ls k)
    (hsource : source'.toList = padded pad 0 source.toList) :
    (∃ ls', Lexeme.ofText source' = .ok ls' ∧ ls'.map (·.token) = ls.map (·.token)) ∧
    ((∃ a a', Assembly.ofText source = .ok a ∧ Assembly.ofText source' = .ok a' ∧
        SameProducts a a') ∨
      ∃ e e', Assembly.ofText source = .error e ∧ Assembly.ofText source' = .error e' ∧
        e.fault = e'.fault ∧ e.message = e'.message) := by
  obtain ⟨ls', h', htokens⟩ := Lexeme.exists_tokens_padded h hpad hplaces hsource
  refine ⟨⟨ls', h', htokens⟩, ?_⟩
  have hread : Assembly.ofText source = Assembly.ofLexemes ls := by
    rw [Assembly.ofText, h]
    rfl
  have hread' : Assembly.ofText source' = Assembly.ofLexemes ls' := by
    rw [Assembly.ofText, h']
    rfl
  rw [hread, hread']
  rcases Assembly.ofLexemes_alike htokens.symm with
    ⟨a, a', ha, ha', htree⟩ | ⟨e, e', he, he', hfault⟩
  · exact .inl ⟨a, a', ha, ha', .of_tree htree⟩
  · refine .inr ⟨e, e', he, he', hfault, ?_⟩
    rw [SyntaxError.message, SyntaxError.message, hfault]

/-- A line comment in front of a class, and a block comment behind a word of its declaration. -/
theorem layout_irrelevant_class :
    ∃ a a', Assembly.ofText "public class A\x7b\x7d" = .ok a ∧
      Assembly.ofText "// file\npublic/* all */ class A\x7b\x7d" = .ok a' ∧ SameProducts a a' := by
  have htokens : Lexeme.ofText "public class A\x7b\x7d" = .ok
      [⟨.keyword .publicKw, ⟨0, 6⟩⟩, ⟨.keyword .classKw, ⟨7, 12⟩⟩, ⟨.ident "A", ⟨13, 14⟩⟩,
        ⟨.symbol .leftBrace, ⟨14, 15⟩⟩, ⟨.symbol .rightBrace, ⟨15, 16⟩⟩,
        ⟨.endOfFile, ⟨16, 16⟩⟩] := by
    decide +kernel
  have hfront : Padding ('/' :: '/' :: " file".toList ++ ['\n']) :=
    .lineComment (by decide +kernel) .nil
  have hbehind : Padding ('/' :: '*' :: (" all ".toList ++ ['*', '/']) ++ []) :=
    .blockComment (by decide +kernel) .nil
  let pad : Nat → List Char := fun k =>
    if k = 0 then '/' :: '/' :: " file".toList ++ ['\n']
    else if k = 6 then '/' :: '*' :: (" all ".toList ++ ['*', '/']) ++ [] else []
  have hpad : ∀ k, Padding (pad k) := by
    intro k
    dsimp only [pad]
    split
    · exact hfront
    · split
      · exact hbehind
      · exact .nil
  have hplaces : ∀ k, pad k ≠ [] → k = 0 ∨ k = 6 := by
    intro k hk
    by_contra! hother
    exact hk (by dsimp only [pad]; rw [if_neg hother.1, if_neg hother.2])
  obtain ⟨-, hsame | ⟨e, e', he, -⟩⟩ := layout_irrelevant htokens hpad
    (fun k hk => (hplaces k hk).imp_right fun hword =>
      ⟨_, List.mem_cons_self, hword.symm, fun heof => by cases heof⟩)
    (by decide +kernel : "// file\npublic/* all */ class A\x7b\x7d".toList = padded pad 0 _)
  · exact hsame
  · obtain ⟨a, ha, -⟩ := @Assembly.exists_of_any "public class A\x7b\x7d" (fun _ => true)
      (by decide +kernel)
    cases he.symm.trans ha

end C

end Interop
