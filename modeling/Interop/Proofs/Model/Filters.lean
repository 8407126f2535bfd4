/-
# Filters of plain names

A filter asks for the types that any of its patterns accepts, so that neither the order of the
patterns nor a repetition matters, and more patterns ask for more.  A plain name stands for two
patterns: one accepts the name, the other whatever begins with the name and a dot.  The dot is what
keeps out a name of which the plain one is only a beginning.

Main result: `filter_names`.
-/
import Interop.Model.Binding
import Interop.Model.Filter
import Interop.Proofs.Except
import Interop.Proofs.Text.Globs
import Interop.Source.Parser

namespace Interop.Model

open Text

/-- A type has a name, or stands below what has it. -/
def TypePath.IsWithin (name : String) (path : TypePath) : Prop :=
  path.dotted = name ∨ (name ++ ".").toList <+: path.dotted.toList

instance (name : String) (path : TypePath) : Decidable (path.IsWithin name) :=
  inferInstanceAs (Decidable (_ ∨ _))

namespace TypeFilter

/-- Characters of identifiers and dots. -/
def IsName (pattern : String) : Prop :=
  ∀ c ∈ pattern.toList, Source.isWordChar c = true ∨ c = '.'

variable {patterns : List String} {f : TypeFilter}

/-! ### Any patterns -/

lemma exists_of_ofPatterns (hne : patterns ≠ []) (h : ofPatterns patterns = .ok f) :
    ∃ globs, patterns.mapM globsOf = .ok globs ∧ f = .anyOf ⟨globs.flatten⟩ := by
  obtain ⟨pattern, more, rfl⟩ := List.exists_cons_of_ne_nil hne
  obtain ⟨globs, hglobs, h⟩ := exists_of_bind_ok h
  refine ⟨globs, hglobs, ?_⟩
  cases hset : GlobSet.ofGlobs globs.flatten with
  | error fault =>
    simp only [hset] at h
    cases h
  | ok set =>
    simp only [hset] at h
    rw [← GlobSet.eq_of_ofGlobs hset]
    exact (Except.ok.inj h).symm

/-- Patterns of which none is wrong or nested too deep make up a filter. -/
lemma exists_ofPatterns (hne : patterns ≠ [])
    (h : ∀ pattern ∈ patterns, ∃ globs, globsOf pattern = .ok globs ∧
      ∀ g ∈ globs, g.isTooDeep = false) : ∃ f, ofPatterns patterns = .ok f := by
  have hread := fun pattern hpattern => (h pattern hpattern).imp fun _ => And.left
  obtain ⟨globs, hglobs, -⟩ := mapM_ok patterns hread
  have hset : GlobSet.ofGlobs globs.flatten = .ok ⟨globs.flatten⟩ := by
    refine GlobSet.ofGlobs_of_forall fun g hg => ?_
    obtain ⟨own, hown, hg⟩ := List.mem_flatten.mp hg
    obtain ⟨pattern, hpattern, hread⟩ := exists_of_mem_mapM patterns hglobs own hown
    obtain ⟨own', hread', hshallow⟩ := h pattern hpattern
    obtain rfl := Except.ok.inj (hread.symm.trans hread')
    exact hshallow g hg
  obtain ⟨pattern, more, rfl⟩ := List.exists_cons_of_ne_nil hne
  refine ⟨.anyOf ⟨globs.flatten⟩, ?_⟩
  simp only [ofPatterns, hglobs, bind, Except.bind, hset]
  rfl

/-- A filter asks for the types that a pattern of it accepts. -/
lemma accepts_iff (hne : patterns ≠ []) (h : ofPatterns patterns = .ok f) (path : TypePath) :
    f.accepts path = true ↔ ∃ pattern ∈ patterns, ∃ globs, globsOf pattern = .ok globs ∧
      ∃ g ∈ globs, g.accepts path.dotted = true := by
  obtain ⟨globs, hglobs, rfl⟩ := exists_of_ofPatterns hne h
  rw [accepts, GlobSet.accepts, List.any_eq_true]
  constructor
  · rintro ⟨g, hg, haccepts⟩
    obtain ⟨own, hown, hg⟩ := List.mem_flatten.mp hg
    obtain ⟨pattern, hpattern, hread⟩ := exists_of_mem_mapM patterns hglobs own hown
    exact ⟨pattern, hpattern, own, hread, g, hg, haccepts⟩
  · rintro ⟨pattern, hpattern, own, hread, g, hg, haccepts⟩
    have hown : own ∈ globs := mem_of_mapM patterns hpattern hread hglobs
    exact ⟨g, List.mem_flatten.mpr ⟨own, hown, hg⟩, haccepts⟩

/-- More patterns ask for more. -/
lemma accepts_mono {extended : List String} {g : TypeFilter} (hne : patterns ≠ [])
    (hsub : patterns ⊆ extended) (hf : ofPatterns patterns = .ok f)
    (hg : ofPatterns extended = .ok g) {path : TypePath} (h : f.accepts path = true) :
    g.accepts path = true := by
  have hne' : extended ≠ [] := by
    rintro rfl
    exact hne (List.subset_nil.mp hsub)
  obtain ⟨pattern, hpattern, haccepts⟩ := (accepts_iff hne hf path).mp h
  exact (accepts_iff hne' hg path).mpr ⟨pattern, hsub hpattern, haccepts⟩

/-! ### Plain names -/

namespace IsName

variable {pattern : String}

lemma notMem_special (h : IsName pattern) : ∀ c ∈ pattern.toList, c ∉ Glob.special := by
  have hspecial : Glob.special.all (fun c => !Source.isWordChar c && c != '.') = true := by decide
  intro c hc hmem
  have hnot := List.all_eq_true.mp hspecial c hmem
  rcases h c hc with hword | rfl
  · simp [hword] at hnot
  · cases hnot

lemma isPlainChar (h : IsName pattern) : ∀ c ∈ pattern.toList, Glob.IsPlainChar c :=
  fun c hc => Glob.isPlainChar_of_notMem (h.notMem_special c hc)

lemma isPlain (h : IsName pattern) : isPlain pattern = true := by
  have hspecial : wildcards ⊆ Glob.special := by decide
  refine List.all_eq_true.mpr fun c hc => ?_
  have hnot : c ∉ wildcards := fun hmem => h.notMem_special c hc (hspecial hmem)
  simpa using hnot

lemma append_dot (h : IsName pattern) : IsName (pattern ++ ".") := by
  intro c hc
  rw [String.toList_append, List.mem_append] at hc
  rcases hc with hc | hc
  · exact h c hc
  · exact .inr (List.mem_singleton.mp hc)

end IsName

lemma globsOf_name {pattern : String} (h : IsName pattern) :
    globsOf pattern = .ok [⟨(pattern ++ ".").toList.map .literal ++ [.anyText]⟩,
      ⟨pattern.toList.map .literal⟩] := by
  -- with the dot it is a name again, and only the star is not plain
  have hbelow : below pattern = pattern ++ "." ++ "*" := by
    rw [below, String.append_assoc]
    rfl
  rw [globsOf, if_pos h.isPlain, hbelow, Glob.ofPattern_star h.append_dot.isPlainChar,
    Glob.ofPattern_plain h.isPlainChar]
  rfl

lemma exists_ofPatterns_names (hne : patterns ≠ []) (h : ∀ p ∈ patterns, IsName p) :
    ∃ f, ofPatterns patterns = .ok f := by
  refine exists_ofPatterns hne fun pattern hpattern => ⟨_, globsOf_name (h pattern hpattern), ?_⟩
  intro g hg
  have hnesting : g.nesting ≤ 2 := by
    simp only [List.mem_cons, List.not_mem_nil, or_false] at hg
    rcases hg with rfl | rfl
    · rw [Glob.nesting, Glob.nestingOfAll_literal]
      decide
    · rw [Glob.nesting, ← List.append_nil (List.map ..), Glob.nestingOfAll_literal]
      decide
  refine decide_eq_false fun hdeep => ?_
  rw [Glob.nestingLimit] at hdeep
  omega

/-- A filter of plain names asks for the types within any of them. -/
lemma accepts_names_iff (hne : patterns ≠ []) (h : ∀ p ∈ patterns, IsName p)
    (hf : ofPatterns patterns = .ok f) (path : TypePath) :
    f.accepts path = true ↔ ∃ p ∈ patterns, path.IsWithin p := by
  rw [accepts_iff hne hf]
  refine exists_congr fun p => and_congr_right fun hp => ?_
  simp only [globsOf_name (h p hp), Except.ok.injEq, exists_eq_left', List.mem_cons,
    List.not_mem_nil, or_false, exists_eq_or_imp, exists_eq_left, Glob.accepts_star_iff,
    Glob.accepts_literal_iff, String.toList_inj]
  exact or_comm

end TypeFilter

/-- A filter of plain names keeps exactly the functions whose owner lies within one of them; with
more patterns it keeps at least as much; and it keeps the same for the same names in any order and
any number. -/
theorem filter_names {patterns : List String} (hne : patterns ≠ [])
    (hnames : ∀ p ∈ patterns, TypeFilter.IsName p) :
    ∃ f, TypeFilter.ofPatterns patterns = .ok f ∧
      (∀ m, (f.apply m).functions =
        m.functions.filter fun g => ∃ p ∈ patterns, g.owner.IsWithin p) ∧
      (∀ extended g, patterns ⊆ extended → TypeFilter.ofPatterns extended = .ok g →
        ∀ m, (f.apply m).functions.Sublist (g.apply m).functions) ∧
      ∀ same, (∀ p, p ∈ same ↔ p ∈ patterns) →
        ∃ g, TypeFilter.ofPatterns same = .ok g ∧ ∀ m, g.apply m = f.apply m := by
  obtain ⟨f, hf⟩ := TypeFilter.exists_ofPatterns_names hne hnames
  have haccepts := TypeFilter.accepts_names_iff hne hnames hf
  refine ⟨f, hf, fun m => ?_, fun extended g hsub hg m => ?_, fun same hsame => ?_⟩
  · refine List.filter_congr fun g _ => ?_
    rw [Bool.eq_iff_iff, haccepts, decide_eq_true_iff]
  · refine List.monotone_filter_right m.functions fun function hkept => ?_
    exact TypeFilter.accepts_mono hne hsub hf hg hkept
  · have hne' : same ≠ [] := by
      obtain ⟨p, hp⟩ := List.exists_mem_of_ne_nil patterns hne
      exact List.ne_nil_of_mem ((hsame p).mpr hp)
    have hnames' : ∀ p ∈ same, TypeFilter.IsName p := fun p hp => hnames p ((hsame p).mp hp)
    obtain ⟨g, hg⟩ := TypeFilter.exists_ofPatterns_names hne' hnames'
    refine ⟨g, hg, fun m => ?_⟩
    have hkeep : g.accepts = f.accepts := by
      funext path
      rw [Bool.eq_iff_iff, haccepts, TypeFilter.accepts_names_iff hne' hnames' hg]
      simp only [hsame]
    rw [TypeFilter.apply, TypeFilter.apply, hkeep]

/-- A namespace is not asked for by the beginning of its name. -/
theorem filter_names_sibling :
    ∃ a f, Source.Assembly.ofText
        ("namespace N \x7b public static class A \x7b public static void F(); \x7d \x7d " ++
          "namespace NM \x7b public static class B \x7b public static void G(); \x7d \x7d") =
            .ok a ∧
      TypeFilter.ofPatterns ["N"] = .ok f ∧
      (BindingModel.ofAssembly a).functions.map (·.owner) = [⟨["N"], "A"⟩, ⟨["NM"], "B"⟩] ∧
      (f.apply (.ofAssembly a)).functions.map (·.owner) = [⟨["N"], "A"⟩] := by
  have hnames : ∀ p ∈ ["N"], TypeFilter.IsName p := by
    intro p hp c hc
    obtain rfl := List.mem_singleton.mp hp
    obtain rfl : c = 'N' := List.mem_singleton.mp hc
    exact .inl rfl
  obtain ⟨f, hf, hkeeps, -⟩ := filter_names (by decide) hnames
  have hrun : Option.any (fun a => decide
        ((BindingModel.ofAssembly a).functions.map (·.owner) = [⟨["N"], "A"⟩, ⟨["NM"], "B"⟩] ∧
          ((BindingModel.ofAssembly a).functions.filter fun g =>
            ∃ p ∈ ["N"], g.owner.IsWithin p).map (·.owner) = [⟨["N"], "A"⟩]))
      (Source.Assembly.ofText
        ("namespace N \x7b public static class A \x7b public static void F(); \x7d \x7d " ++
          "namespace NM \x7b public static class B \x7b public static void G(); \x7d \x7d")
        ).toOption = true := by
    decide +kernel
  obtain ⟨a, ha, howners⟩ := Source.Assembly.exists_of_any hrun
  obtain ⟨hall, hkept⟩ := of_decide_eq_true howners
  refine ⟨a, f, ha, hf, hall, ?_⟩
  rw [hkeeps, hkept]

end Interop.Model
