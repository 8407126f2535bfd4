/-
# Names of parameters in C

A parameter is declared in a prototype and read in a stub under one name, made from its own:
reserved words and names that begin like the locals of stubs get an underscore behind them.  Hence
no name is a reserved word, and none is that of a local.  Two parameters get one name exactly if the
one is a reserved word and the other is the same word with an underscore behind it.

Main result: `parameterNames_usable`.
-/
import Interop.C.Stub
import Interop.Proofs.Except
import Interop.Proofs.Model.NativeNames

namespace Interop.C

open Source Model

/-! ### Where the names stand -/

/-- The types of the parameters in a prototype. -/
def parameterTypes (f : NativeFunction) : List String :=
  (if f.takesHandle then [f.owner.symbol ++ "*"] else []) ++
    f.params.map fun p => parameterType p.type p.direction

/-- The names of the parameters in a prototype. -/
def parameterNames (f : NativeFunction) : List String :=
  (if f.takesHandle then ["__object"] else []) ++ f.params.map fun p => parameterName p.name

/-- The list of parameters of a prototype, with the given names. -/
def parameterList (f : NativeFunction) (names : List String) : String :=
  if names.isEmpty then "void"
  else ", ".intercalate <|
    List.zipWith (fun type name => type ++ " " ++ name) (parameterTypes f) names

/-- The variables that a stub declares, and the name of the receiver. -/
def stubLocals : List String := ["__args", "__result", "__array", "__object"]

/-- The C expressions by which a stub passes on the parameter of the given name. -/
inductive PassesOn (name : String) : String → Prop
  | plain : PassesOn name name
  | cast (type : String) : PassesOn name ("(" ++ type ++ ")" ++ name)
  | member : PassesOn name (name ++ ".array")

/-- A prototype declares the parameters under their names. -/
lemma prototype_eq (api : String) (f : NativeFunction) :
    prototype api f =
      s!"{api} {valueType f.returns} {f.symbol}({parameterList f (parameterNames f)})" := by
  have hlist : (if f.takesHandle then [f.owner.symbol ++ "* __object"] else []) ++
        f.params.map (fun p => parameterType p.type p.direction ++ " " ++ parameterName p.name) =
      List.zipWith (fun type name => type ++ " " ++ name) (parameterTypes f)
        (parameterNames f) := by
    rw [parameterTypes, parameterNames]
    cases f.takesHandle <;> simp [String.append_assoc, List.zipWith_map, List.zipWith_self]
  have hempty : ((if f.takesHandle then [f.owner.symbol ++ "* __object"] else []) ++
      f.params.map fun p => parameterType p.type p.direction ++ " " ++
        parameterName p.name).isEmpty = (parameterNames f).isEmpty := by
    rw [parameterNames]
    cases f.takesHandle <;> simp
  rw [prototype, parameterList, ← hempty, ← hlist]

lemma passesOn_packParameter {m : BindingModel} {p : BoundParam} {packed : PackedArgument}
    (h : packParameter m p = .ok packed) : PassesOn (parameterName p.name) packed.expression := by
  rw [packParameter] at h
  obtain ⟨slot, -, h⟩ := exists_of_bind_ok h
  dsimp only at h
  split at h
  · cases h
    exact .plain
  · split at h
    · obtain ⟨e, -, h⟩ := exists_of_bind_ok h
      cases h
      exact .cast _
    · cases h
      exact .cast "void*"
    · cases h
      exact .member
    · cases h
      exact .plain

/-- A stub passes on its parameters in order, each under its own name. -/
lemma passesOn_of_stub {m : BindingModel} {f : NativeFunction} {s : Stub} (h : Stub.of m f = .ok s) :
    List.Forall₂ (fun name packed => PassesOn name packed.expression) (parameterNames f)
      s.arguments := by
  rw [Stub.of] at h
  obtain ⟨packed, hpacked, h⟩ := exists_of_bind_ok h
  obtain ⟨result, -, h⟩ := exists_of_bind_ok h
  cases h
  refine List.rel_append ?_ ?_
  · cases f.takesHandle with
    | false => exact .nil
    | true => exact .cons (.cast "void*") .nil
  · rw [List.forall₂_map_left_iff]
    exact (forall₂_of_mapM _ hpacked).imp fun p arg => passesOn_packParameter

/-! ### Escaping -/

/-- The words that no parameter can have for its name. -/
def reservedWords : List String := cKeywords ++ cppKeywords

lemma reservedWords_spec : ∀ word ∈ reservedWords,
    word.toList.getLast? ≠ some '_' ∧ beginsWith (word ++ "_") "__" = false := by
  decide +kernel

lemma stubLocals_spec : ∀ name ∈ stubLocals,
    name.toList.getLast? ≠ some '_' ∧ beginsWith name "__" = true ∧ name ∉ reservedWords := by
  decide +kernel

lemma getLast?_escaped (name : String) : (name ++ "_").toList.getLast? = some '_' := by
  simp

lemma beginsWith_append {name start : String} (h : beginsWith name start = true) (rest : String) :
    beginsWith (name ++ rest) start = true := by
  rw [beginsWith, List.isPrefixOf_iff_prefix] at h ⊢
  rw [String.toList_append]
  exact h.trans (List.prefix_append _ _)

/-- A name gets an underscore if it is a reserved word or begins like a local, and else is kept. -/
lemma parameterName_cases (name : String) :
    ((name ∈ reservedWords ∨ beginsWith name "__" = true) ∧ parameterName name = name ++ "_") ∨
      (name ∉ reservedWords ∧ beginsWith name "__" = false ∧ parameterName name = name) := by
  rw [parameterName, reservedWords, List.mem_append]
  split
  · rename_i h
    refine Or.inl ⟨?_, rfl⟩
    simpa using h
  · rename_i h
    simp only [Bool.or_eq_true, List.contains_iff_mem, not_or, Bool.not_eq_true] at h
    exact Or.inr ⟨by simpa using h.1, h.2, rfl⟩

lemma parameterName_notMem_reservedWords (name : String) : parameterName name ∉ reservedWords := by
  rcases parameterName_cases name with ⟨-, h⟩ | ⟨hword, -, h⟩
  · rw [h]
    exact fun hword => (reservedWords_spec _ hword).1 (getLast?_escaped name)
  · rw [h]
    exact hword

lemma parameterName_notMem_stubLocals (name : String) : parameterName name ∉ stubLocals := by
  intro hlocal
  obtain ⟨hlast, hbegins, -⟩ := stubLocals_spec _ hlocal
  rcases parameterName_cases name with ⟨-, h⟩ | ⟨-, hnot, h⟩
  · rw [h] at hlast
    exact hlast (getLast?_escaped name)
  · rw [h, hnot] at hbegins
    cases hbegins

/-- A reserved word and the word that it is escaped to get one name. -/
lemma parameterName_of_reserved {word : String} (h : word ∈ reservedWords) :
    parameterName word = word ++ "_" ∧ parameterName (word ++ "_") = word ++ "_" := by
  constructor
  · rcases parameterName_cases word with ⟨-, hname⟩ | ⟨hnot, -⟩
    · exact hname
    · exact absurd h hnot
  · rcases parameterName_cases (word ++ "_") with ⟨hword | hbegins, -⟩ | ⟨-, -, hname⟩
    · exact absurd (getLast?_escaped word) (reservedWords_spec _ hword).1
    · rw [(reservedWords_spec _ h).2] at hbegins
      cases hbegins
    · exact hname

/-- Escaping makes one name of two only where the one is a reserved word, and the other the word
that it is escaped to. -/
lemma reserved_of_parameterName_eq {x y : String} (hne : x ≠ y)
    (h : parameterName x = parameterName y) :
    (x ∈ reservedWords ∧ y = x ++ "_") ∨ (y ∈ reservedWords ∧ x = y ++ "_") := by
  have hescaped : ∀ {name kept : String}, (name ∈ reservedWords ∨ beginsWith name "__" = true) →
      beginsWith kept "__" = false → name ++ "_" = kept → name ∈ reservedWords ∧ kept = name ++ "_" := by
    rintro name _ (hword | hbegins) hnot rfl
    · exact ⟨hword, rfl⟩
    · rw [beginsWith_append hbegins] at hnot
      cases hnot
  rcases parameterName_cases x with ⟨hx, hnamex⟩ | ⟨-, hx, hnamex⟩ <;>
    rcases parameterName_cases y with ⟨hy, hnamey⟩ | ⟨-, hy, hnamey⟩ <;> rw [hnamex, hnamey] at h
  · exact absurd (String.append_left_inj _ |>.mp h) hne
  · exact Or.inl (hescaped hx hy h)
  · exact Or.inr (hescaped hy hx h.symm)
  · exact absurd h hne

/-- The name of the receiver is none that a parameter can get. -/
lemma nodup_parameterNames_iff (f : NativeFunction) :
    (parameterNames f).Nodup ↔ ((f.params.map (·.name)).map parameterName).Nodup := by
  rw [parameterNames, List.map_map]
  split
  · rw [List.singleton_append, List.nodup_cons]
    refine and_iff_right fun hname => ?_
    obtain ⟨p, -, hp⟩ := List.mem_map.mp hname
    exact parameterName_notMem_stubLocals p.name (hp ▸ by decide)
  · rfl

lemma nodup_map_parameterName_iff {names : List String} (hnodup : names.Nodup) :
    (names.map parameterName).Nodup ↔
      ∀ word ∈ reservedWords, word ∈ names → word ++ "_" ∉ names := by
  rw [List.nodup_map_iff_inj_on hnodup]
  constructor
  · intro hinj word hreserved hword hescaped
    obtain ⟨hname, hname'⟩ := parameterName_of_reserved hreserved
    have heq : word = word ++ "_" := hinj word hword _ hescaped (hname.trans hname'.symm)
    exact (reservedWords_spec word hreserved).1 (heq ▸ getLast?_escaped word)
  · intro hnone x hx y hy heq
    by_contra hne
    rcases reserved_of_parameterName_eq hne heq with ⟨hword, rfl⟩ | ⟨hword, rfl⟩
    · exact hnone x hword hx hy
    · exact hnone y hword hy hx

/-- The names of the parameters of a function whose own parameters have different names: they are
no reserved words and no locals of the stub, and they are different unless a parameter has a
reserved word for its name, and another one the same word with an underscore behind it. -/
theorem parameterNames_usable (f : NativeFunction) (hnodup : (f.params.map (·.name)).Nodup) :
    (∀ api, prototype api f =
      s!"{api} {valueType f.returns} {f.symbol}({parameterList f (parameterNames f)})") ∧
    (∀ m s, Stub.of m f = .ok s →
      List.Forall₂ (fun name packed => PassesOn name packed.expression) (parameterNames f)
        s.arguments) ∧
    (∀ name ∈ parameterNames f, name ∉ reservedWords) ∧
    (∀ p ∈ f.params, parameterName p.name ∉ stubLocals) ∧
    ((parameterNames f).Nodup ↔ ∀ word ∈ reservedWords, word ∈ f.params.map (·.name) →
      word ++ "_" ∉ f.params.map (·.name)) := by
  refine ⟨fun api => prototype_eq api f, fun _ _ => passesOn_of_stub, ?_, ?_, ?_⟩
  · intro name hname
    rcases List.mem_append.mp hname with hname | hname
    · split at hname
      · rw [List.mem_singleton.mp hname]
        exact (stubLocals_spec _ (by decide)).2.2
      · cases hname
    · obtain ⟨p, -, rfl⟩ := List.mem_map.mp hname
      exact parameterName_notMem_reservedWords p.name
  · exact fun p _ => parameterName_notMem_stubLocals p.name
  · rw [nodup_parameterNames_iff]
    exact nodup_map_parameterName_iff hnodup

/-- Reserved words and names like those of locals, which all get other names. -/
theorem parameterNames_usable_reserved :
    ∃ a f, Assembly.ofText ("public class A \x7b " ++
        "public static void f(int template, int __args, ref int __result); \x7d") = .ok a ∧
      f ∈ (BindingModel.ofAssembly a).functions ∧
      (f.params.map (·.name)) = ["template", "__args", "__result"] ∧ (parameterNames f).Nodup := by
  have hrun : (Assembly.ofText ("public class A \x7b " ++
      "public static void f(int template, int __args, ref int __result); \x7d")).toOption.any
        (fun a => (BindingModel.ofAssembly a).functions.any fun f =>
          f.params.map (·.name) = ["template", "__args", "__result"]) = true := by
    decide +kernel
  obtain ⟨a, ha, hfunctions⟩ := Assembly.exists_of_any hrun
  obtain ⟨f, hf, hnames⟩ := List.any_eq_true.mp hfunctions
  have hnames := of_decide_eq_true hnames
  obtain ⟨-, -, -, -, hnodup⟩ := parameterNames_usable f (hnames ▸ by decide)
  refine ⟨a, f, ha, hf, hnames, hnodup.mpr ?_⟩
  rw [hnames]
  decide +kernel

/-- Two parameters with different names of their own, which are declared under one name. -/
theorem parameterNames_not_nodup :
    ∃ a f, Assembly.ofText ("public class A \x7b " ++
        "public static void f(int register, int register_); \x7d") = .ok a ∧
      f ∈ (BindingModel.ofAssembly a).functions ∧ (f.params.map (·.name)).Nodup ∧
      ¬(parameterNames f).Nodup := by
  have hrun : (Assembly.ofText ("public class A \x7b " ++
      "public static void f(int register, int register_); \x7d")).toOption.any
        (fun a => (BindingModel.ofAssembly a).functions.any fun f =>
          (f.params.map (·.name)).Nodup && !decide (parameterNames f).Nodup) = true := by
    decide +kernel
  obtain ⟨a, ha, hfunctions⟩ := Assembly.exists_of_any hrun
  obtain ⟨f, hf, hnames⟩ := List.any_eq_true.mp hfunctions
  obtain ⟨hown, hgiven⟩ := Bool.and_eq_true_iff.mp hnames
  exact ⟨a, f, ha, hf, of_decide_eq_true hown, by simpa using hgiven⟩

end Interop.C
