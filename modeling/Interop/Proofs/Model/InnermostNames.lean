/-
# Which types names mean

A name means the innermost declaration: of the declared types whose paths are the name behind a
part of the scope, outermost segments first, the one behind the longest part.  A type that is
written stands for one that can cross the boundary exactly if it is primitive or a text, or a name
whose innermost declaration is a public enum or a public class that is not static, both of the
model, or an array of such a type in one dimension.  It is unknown exactly if it is a name, or an
array of a name, that has no declaration in the scope nor in any part of it.

Names are looked for segment by segment.  As long as no segment holds a dot this finds what a
look-up by the texts of the paths does (`lookupTextFrom`).

Main result: `resolveType_iff`.
-/
import Mathlib.Data.List.Find
import Interop.Proofs.Model.PassedTypes

namespace Interop.Model

open Source

/-! ### Looking for a name -/

namespace Declared

/-- A declaration that a name means in a scope: no other one has the name behind a longer part of
the scope. -/
structure IsInnermost (decls : List Declared) (scope segments : List String) (found : Declared) :
    Prop where
  mem : found ∈ decls
  innermost : ∃ inner, inner <+: scope ∧ found.path.segments = inner ++ segments ∧
    ∀ other ∈ decls, ∀ outer, outer <+: scope → other.path.segments = outer ++ segments →
      outer.length ≤ inner.length

/-- No declaration has a name behind a part of a scope, be it the whole scope or nothing of it. -/
def Undeclared (decls : List Declared) (scope segments : List String) : Prop :=
  ∀ d ∈ decls, ∀ outer, outer <+: scope → d.path.segments ≠ outer ++ segments

variable {decls : List Declared} {segments : List String}

lemma find?_eq_none_iff :
    find? decls segments = none ↔ ∀ d ∈ decls, d.path.segments ≠ segments := by
  simp [find?]

/-- As no two declarations have one path, the first with given segments is the only one. -/
lemma find?_eq_some_iff (hnodup : (decls.map (·.path)).Nodup) {found : Declared} :
    find? decls segments = some found ↔ found ∈ decls ∧ found.path.segments = segments := by
  have hsegments : (decls.map (·.path.segments)).Nodup := by
    have := hnodup.map fun _ _ => TypePath.segments_inj.mp
    rwa [List.map_map] at this
  exact find?_eq_some_iff_of_nodup hsegments

/-- A name is looked for from the given depth on outward, and the first hit counts. -/
lemma lookupFrom_eq_some_iff (scope : List String) (depth : Nat) {found : Declared} :
    lookupFrom decls scope segments depth = some found ↔
      ∃ k ≤ depth, find? decls (scope.take k ++ segments) = some found ∧
        ∀ j, k < j → j ≤ depth → find? decls (scope.take j ++ segments) = none := by
  induction depth with
  | zero =>
    constructor
    · intro h
      exact ⟨0, Nat.le_refl 0, h, fun j hj hj' => absurd hj (Nat.not_lt.mpr hj')⟩
    · rintro ⟨k, hk, hfound, -⟩
      obtain rfl := Nat.le_zero.mp hk
      exact hfound
  | succ depth ih =>
    rw [lookupFrom, Option.or_eq_some_iff, ih]
    constructor
    · rintro (hhere | ⟨hnone, k, hk, hfound, hbetween⟩)
      · exact ⟨_, Nat.le_refl _, hhere, fun j hj hj' => absurd hj (Nat.not_lt.mpr hj')⟩
      · refine ⟨k, Nat.le_succ_of_le hk, hfound, fun j hj hj' => ?_⟩
        rcases Nat.le_succ_iff.mp hj' with hle | rfl
        · exact hbetween j hj hle
        · exact hnone
    · rintro ⟨k, hk, hfound, hbetween⟩
      rcases Nat.le_succ_iff.mp hk with hle | rfl
      · exact Or.inr ⟨hbetween _ (Nat.lt_succ_of_le hle) (Nat.le_refl _), k, hle, hfound,
          fun j hj hj' => hbetween j hj (Nat.le_succ_of_le hj')⟩
      · exact Or.inl hfound

lemma lookupFrom_eq_none_iff (scope : List String) (depth : Nat) :
    lookupFrom decls scope segments depth = none ↔
      ∀ k ≤ depth, find? decls (scope.take k ++ segments) = none := by
  induction depth with
  | zero =>
    constructor
    · intro h k hk
      obtain rfl := Nat.le_zero.mp hk
      exact h
    · exact fun h => h 0 (Nat.le_refl 0)
  | succ depth ih =>
    rw [lookupFrom, Option.or_eq_none_iff, ih]
    constructor
    · rintro ⟨hhere, hrest⟩ k hk
      rcases Nat.le_succ_iff.mp hk with hle | rfl
      · exact hrest k hle
      · exact hhere
    · intro h
      exact ⟨h _ (Nat.le_refl _), fun k hk => h k (Nat.le_succ_of_le hk)⟩

variable {scope : List String} {name : DottedName}

/-- The look-up finds the innermost declaration and no other. -/
lemma lookup?_eq_some_iff (hnodup : (decls.map (·.path)).Nodup) {found : Declared} :
    lookup? decls scope name = some found ↔ IsInnermost decls scope name.segments found := by
  rw [lookup?, lookupFrom_eq_some_iff]
  constructor
  · rintro ⟨k, hk, hfound, hbetween⟩
    obtain ⟨hmem, hsegments⟩ := (find?_eq_some_iff hnodup).mp hfound
    refine ⟨hmem, scope.take k, List.take_prefix k scope, hsegments, ?_⟩
    intro other hother outer houter hpath
    rw [List.length_take_of_le hk]
    by_contra hlonger
    have hnone := hbetween _ (Nat.not_le.mp hlonger) houter.length_le
    rw [← List.prefix_iff_eq_take.mp houter] at hnone
    exact find?_eq_none_iff.mp hnone other hother hpath
  · rintro ⟨hmem, inner, hinner, hsegments, hwidest⟩
    refine ⟨inner.length, hinner.length_le, ?_, ?_⟩
    · rw [← List.prefix_iff_eq_take.mp hinner]
      exact (find?_eq_some_iff hnodup).mpr ⟨hmem, hsegments⟩
    · intro j hj hj'
      refine find?_eq_none_iff.mpr fun other hother hpath => ?_
      have := hwidest other hother _ (List.take_prefix j scope) hpath
      rw [List.length_take_of_le hj'] at this
      exact absurd hj (Nat.not_lt.mpr this)

lemma lookup?_eq_none_iff :
    lookup? decls scope name = none ↔ Undeclared decls scope name.segments := by
  rw [lookup?, lookupFrom_eq_none_iff]
  constructor
  · intro h d hd outer houter
    have hnone := h _ houter.length_le
    rw [← List.prefix_iff_eq_take.mp houter] at hnone
    exact find?_eq_none_iff.mp hnone d hd
  · exact fun h k _ => find?_eq_none_iff.mpr fun d hd => h d hd _ (List.take_prefix k scope)

/-! ### Looking for the text of a name -/

/-- The declaration whose path is written as the given segments are, with dots between them. -/
def findText? (decls : List Declared) (segments : List String) : Option Declared :=
  decls.find? (·.path.dotted = ".".intercalate segments)

/-- The declaration that a name means in the first `depth` segments of a namespace, if what is
looked for is the text of a path. -/
def lookupTextFrom (decls : List Declared) (scope segments : List String) : Nat → Option Declared
  | 0 => findText? decls segments
  | depth + 1 =>
    (findText? decls (scope.take (depth + 1) ++ segments)).or
      (lookupTextFrom decls scope segments depth)

/-- No segment of a name holds a dot, and there is at least one. -/
structure IsPlain (segments : List String) : Prop where
  nonempty : segments ≠ []
  dotFree : ∀ s ∈ segments, '.' ∉ s.toList

lemma IsPlain.append {segments scope : List String} (h : IsPlain segments)
    (hscope : ∀ s ∈ scope, '.' ∉ s.toList) : IsPlain (scope ++ segments) where
  nonempty := List.append_ne_nil_of_right_ne_nil scope h.nonempty
  dotFree := List.forall_mem_append.mpr ⟨hscope, h.dotFree⟩

variable (hdecls : ∀ d ∈ decls, d.path.DotFree)
include hdecls

/-- Where no segment holds a dot, it makes no difference whether paths are compared segment by
segment or as text. -/
lemma find?_eq_findText? {segments : List String} (h : IsPlain segments) :
    find? decls segments = findText? decls segments := by
  -- the segments are those of a path
  obtain ⟨init, last, rfl⟩ := (List.eq_nil_or_concat' segments).resolve_left h.nonempty
  refine List.find?_congr fun d hd => decide_eq_decide.mpr ?_
  exact TypePath.segments_inj.trans
    (TypePath.dotted_inj (q := ⟨init, last⟩) (hdecls d hd) h.dotFree).symm

lemma lookupFrom_eq_lookupTextFrom {segments : List String} (h : IsPlain segments)
    {scope : List String} (hscope : ∀ s ∈ scope, '.' ∉ s.toList) (depth : Nat) :
    lookupFrom decls scope segments depth = lookupTextFrom decls scope segments depth := by
  induction depth with
  | zero => exact find?_eq_findText? hdecls h
  | succ depth ih =>
    have hplain : IsPlain (scope.take (depth + 1) ++ segments) :=
      h.append fun s hs => hscope s (List.mem_of_mem_take hs)
    rw [lookupFrom, lookupTextFrom, find?_eq_findText? hdecls hplain, ih]

end Declared

/-! ### What types stand for -/

section

variable (decls : List Declared) (m : BindingModel) (scope : List String)

/-- What a type stands for where it is written, if it is no array. -/
inductive MeansOne : TypeExpr → ManagedType → Prop
  | primitive (p : Primitive) : MeansOne (.primitive p) (.primitive p)
  | string : MeansOne .string .string
  | named {name : DottedName} {found : Declared} {t : ManagedType}
    (hname : name.text ∉ builtinNames)
    (hfound : Declared.IsInnermost decls scope name.segments found) (hpasses : found.PassesAs m t) :
    MeansOne (.named name) t

/-- What a type stands for where it is written. -/
inductive Means : TypeExpr → ManagedType → Prop
  | one {expr : TypeExpr} {t : ManagedType} (h : MeansOne decls m scope expr t) : Means expr t
  | array {expr : TypeExpr} {t : ManagedType} (h : MeansOne decls m scope expr t) :
    Means (.array expr) (.array t)

/-- A name without a meaning of its own that nothing is declared by. -/
def UnknownName (name : DottedName) : Prop :=
  name.text ∉ builtinNames ∧ Declared.Undeclared decls scope name.segments

end

section

variable {decls : List Declared} {m : BindingModel} {scope : List String} {member : String}

lemma MeansOne.not_array {element : TypeExpr} {t : ManagedType} :
    ¬MeansOne decls m scope (.array element) t := nofun

lemma resolveName_eq_ok_iff_means (hnodup : (decls.map (·.path)).Nodup) {name : DottedName}
    {t : ManagedType} :
    resolveName decls m scope member name = .ok t ↔ MeansOne decls m scope (.named name) t := by
  rw [resolveName_eq_ok_iff]
  constructor
  · rintro ⟨hname, found, hfound, hpasses⟩
    exact .named hname ((Declared.lookup?_eq_some_iff hnodup).mp hfound) hpasses
  · rintro ⟨⟩
    rename_i found hname hfound hpasses
    exact ⟨hname, found, (Declared.lookup?_eq_some_iff hnodup).mpr hfound, hpasses⟩

lemma resolveName_eq_unknown_iff {name : DottedName} {who what : String} {hint : Option String} :
    resolveName decls m scope member name = .error (.unknownType who what hint) ↔
      UnknownName decls scope name ∧ who = member ∧ what = name.text ∧
        hint = suggestType? decls name.text := by
  rw [UnknownName, ← Declared.lookup?_eq_none_iff]
  constructor
  · intro h
    rw [resolveName] at h
    dsimp only at h
    split at h
    · cases h
    · rename_i hname
      split at h
      · rename_i hnone
        cases h
        exact ⟨⟨by simpa using hname, hnone⟩, rfl, rfl, rfl⟩
      · -- the other faults are of other kinds
        split at h
        · cases h
        · split at h
          · split at h <;> cases h
          · split at h
            · split at h <;> cases h
            · cases h
          · cases h
  · rintro ⟨⟨hname, hnone⟩, rfl, rfl, rfl⟩
    rw [resolveName, hnone]
    exact if_neg (by simpa using hname)

/-! ### Types that are written -/

lemma means_iff_one {expr : TypeExpr} (hexpr : ∀ element, expr ≠ .array element)
    {t : ManagedType} : Means decls m scope expr t ↔ MeansOne decls m scope expr t := by
  constructor
  · rintro (h | h)
    · exact h
    · exact absurd rfl (hexpr _)
  · exact .one

lemma means_array_iff {element : TypeExpr} {t : ManagedType} :
    Means decls m scope (.array element) t ↔
      ∃ u, MeansOne decls m scope element u ∧ .array u = t := by
  constructor
  · rintro (h | h)
    · exact absurd h MeansOne.not_array
    · exact ⟨_, h, rfl⟩
  · rintro ⟨u, h, rfl⟩
    exact .array h

lemma resolveOne_eq_ok_iff (hnodup : (decls.map (·.path)).Nodup) {expr : TypeExpr}
    (hexpr : ∀ element, expr ≠ .array element) {t : ManagedType} :
    resolveType decls m scope member expr = .ok t ↔ MeansOne decls m scope expr t := by
  cases expr with
  | array element => exact absurd rfl (hexpr element)
  | primitive p =>
    constructor
    · rintro ⟨⟩
      exact .primitive p
    · rintro ⟨⟩
      rfl
  | string =>
    constructor
    · rintro ⟨⟩
      exact .string
    · rintro ⟨⟩
      rfl
  | named name => exact resolveName_eq_ok_iff_means hnodup
  | void | generic | nullable => exact ⟨nofun, nofun⟩

lemma resolveOne_eq_unknown_iff {expr : TypeExpr} (hexpr : ∀ element, expr ≠ .array element)
    {who what : String} {hint : Option String} :
    resolveType decls m scope member expr = .error (.unknownType who what hint) ↔
      ∃ name, expr = .named name ∧ UnknownName decls scope name ∧ who = member ∧
        what = name.text ∧ hint = suggestType? decls name.text := by
  cases expr with
  | array element => exact absurd rfl (hexpr element)
  | named name =>
    rw [resolveType, resolveName_eq_unknown_iff]
    constructor
    · exact fun h => ⟨name, rfl, h⟩
    · rintro ⟨_, ⟨⟩, h⟩
      exact h
  | primitive | string | void | generic | nullable =>
    constructor
    · rintro ⟨⟩
    · rintro ⟨_, ⟨⟩, -⟩

lemma resolveType_eq_ok_iff (hnodup : (decls.map (·.path)).Nodup) (expr : TypeExpr)
    (t : ManagedType) :
    resolveType decls m scope member expr = .ok t ↔ Means decls m scope expr t := by
  rcases array_cases expr with hexpr | ⟨inner, rfl⟩ | ⟨element, helement, rfl⟩
  · rw [resolveOne_eq_ok_iff hnodup hexpr, means_iff_one hexpr]
  · rw [means_array_iff]
    refine ⟨nofun, ?_⟩
    rintro ⟨u, hu, -⟩
    exact absurd hu MeansOne.not_array
  · rw [resolveType.eq_6 _ _ _ _ _ helement, map_eq_ok_iff, means_array_iff]
    simp only [resolveOne_eq_ok_iff hnodup helement]

lemma resolveType_eq_unknown_iff (expr : TypeExpr) (who what : String) (hint : Option String) :
    resolveType decls m scope member expr = .error (.unknownType who what hint) ↔
      ∃ name, (expr = .named name ∨ expr = .array (.named name)) ∧
        UnknownName decls scope name ∧ who = member ∧ what = name.text ∧
        hint = suggestType? decls name.text := by
  rcases array_cases expr with hexpr | ⟨inner, rfl⟩ | ⟨element, helement, rfl⟩
  · rw [resolveOne_eq_unknown_iff hexpr]
    refine exists_congr fun name => and_congr_left' ?_
    exact (or_iff_left (hexpr _)).symm
  · refine ⟨nofun, ?_⟩
    rintro ⟨name, h | h, -⟩ <;> cases h
  · rw [resolveType.eq_6 _ _ _ _ _ helement, map_eq_error_iff, resolveOne_eq_unknown_iff helement]
    refine exists_congr fun name => and_congr_left' ?_
    simp

end

/-- A type that is written is good for the boundary exactly if it means a type there, and then it
stands for that one; it is unknown exactly if it is, or is an array of, a name that no declaration
has in the scope or around it.  Where no segment holds a dot, names are looked for as texts. -/
theorem resolveType_iff (a : Assembly) (m : BindingModel) (scope : List String) (member : String)
    (expr : TypeExpr) :
    (∀ t, resolveType (Declared.ofAssembly a).1 m scope member expr = .ok t ↔
        Means (Declared.ofAssembly a).1 m scope expr t) ∧
      (∀ who what hint, resolveType (Declared.ofAssembly a).1 m scope member expr =
          .error (.unknownType who what hint) ↔
        ∃ name, (expr = .named name ∨ expr = .array (.named name)) ∧
          UnknownName (Declared.ofAssembly a).1 scope name ∧ who = member ∧ what = name.text ∧
          hint = suggestType? (Declared.ofAssembly a).1 name.text) ∧
      ((∀ d ∈ (Declared.ofAssembly a).1, d.path.DotFree) → (∀ s ∈ scope, '.' ∉ s.toList) →
        ∀ name : DottedName, Declared.IsPlain name.segments →
          Declared.lookup? (Declared.ofAssembly a).1 scope name =
            Declared.lookupTextFrom (Declared.ofAssembly a).1 scope name.segments scope.length) :=
  ⟨resolveType_eq_ok_iff (nodup_path_ofAssembly a) expr, resolveType_eq_unknown_iff expr,
    fun hdecls hscope _ hname =>
      Declared.lookupFrom_eq_lookupTextFrom hdecls hname hscope scope.length⟩

/-- In the namespace `N` the name `B` is found as the text `N.B`, and so means the class there and not
the one of its name outside. -/
theorem resolveType_iff_shadowed :
    ∃ a found, Assembly.ofText "public class B { } namespace N { public class B { } }" = .ok a ∧
      (∀ d ∈ (Declared.ofAssembly a).1, d.path.DotFree) ∧
      Declared.lookupTextFrom (Declared.ofAssembly a).1 ["N"] ["B"] 1 = some found ∧
      found.path = ⟨["N"], "B"⟩ := by
  have hrun : (Assembly.ofText
      "public class B { } namespace N { public class B { } }").toOption.any (fun a =>
        decide (∀ d ∈ (Declared.ofAssembly a).1, ∀ s ∈ d.path.segments, '.' ∉ s.toList) &&
        (Declared.lookup? (Declared.ofAssembly a).1 ["N"] ⟨["B"], ⟨0, 1⟩⟩).any fun found =>
          decide (found.path = ⟨["N"], "B"⟩)) = true := by
    decide +kernel
  obtain ⟨a, ha, hall⟩ := Assembly.exists_of_any hrun
  obtain ⟨hfree, hlookup⟩ := Bool.and_eq_true_iff.mp hall
  obtain ⟨found, hfound, hpath⟩ := (Option.any_eq_true ..).mp hlookup
  have hdecls : ∀ d ∈ (Declared.ofAssembly a).1, ∀ s ∈ d.path.segments, '.' ∉ s.toList :=
    of_decide_eq_true hfree
  have hplain : Declared.IsPlain ["B"] := ⟨List.cons_ne_nil _ _, by decide⟩
  obtain ⟨-, -, htexts⟩ :=
    resolveType_iff a (.ofAssembly a) ["N"] "f" (.named ⟨["B"], ⟨0, 1⟩⟩)
  rw [htexts hdecls (by decide) _ hplain] at hfound
  exact ⟨a, found, ha, hdecls, hfound, of_decide_eq_true hpath⟩

end Interop.Model
