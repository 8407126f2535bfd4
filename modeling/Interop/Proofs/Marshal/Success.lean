/-
# How conversions succeed

The ways in which a conversion gives a value, one by one: `Reads` for the conversion to managed
values and `Writes` for the one to native values.  A conversion succeeds in exactly these ways
(`toManaged_eq_ok_iff`, `toNative_eq_ok_iff`), and what holds of converted values is proved by
cases on them.
-/
import Interop.Marshal
import Interop.Proofs.Except
import Mathlib.Tactic.Common

namespace Interop.Marshal

open Model Native Managed

/-- The number of an enum value, with the sign of the type that the enum has. -/
def numberOf (p : Primitive) (w : EnumValue) : Int := if p.isSigned then w.toInt else w.bits.toNat

/-- A number is converted to a value of a type. -/
inductive Converts : Primitive → Scalar → Scalar → Prop
  | bool (b : Bool) : Converts .bool (.bool b) (.bool b)
  | integer {p q : Primitive} {v : Int} (hq : q.holds v = true) (hp : p.holds v = true) :
    Converts p (.integer q v hq) (.integer p v hp)
  | single (x : Binary32) : Converts .float32 (.single x) (.single x)
  | double (x : Binary64) : Converts .float64 (.double x) (.double x)
  | widen (x : Binary32) : Converts .float64 (.single x) (.double x.widen)
  | narrow {x : Binary64} {y : Binary32} (h : x.narrow? = some y) :
    Converts .float32 (.double x) (.single y)

lemma Converts.type_eq {p : Primitive} {s t : Scalar} (h : Converts p s t) : t.type = p := by
  cases h <;> rfl

/-- A native value is read as a value of a type. -/
inductive Reads (m : BindingModel) (t : HandleTable) :
    ManagedType → Heap → NativeValue → ManagedValue → Heap → Prop
  | void (heap : Heap) (v : NativeValue) : Reads m t .void heap v .null heap
  | primitive {p : Primitive} {s s' : Scalar} (heap : Heap) (h : Converts p s s') :
    Reads m t (.primitive p) heap (.scalar s) (.scalar s') heap
  | noText (heap : Heap) : Reads m t .string heap .null .null heap
  | str {c : ConstText} {s : String} (heap : Heap) (h : Text.ofUtf8 c.octets = .ok s) :
    Reads m t .string heap (.str c) (.string s) heap
  | text {b : TextBuffer} {s : String} (heap : Heap) (h : Text.ofUtf8 b.octets = .ok s) :
    Reads m t .string heap (.text b) (.string s) heap
  | enum {path : TypePath} {e : BoundEnum} {q : Primitive} {n : Int} (heap : Heap)
    (he : m.enum? path = some e) (hq : q.holds n = true) (hp : e.underlying.holds n = true) :
    Reads m t (.enum path) heap (.scalar (.integer q n hq)) (.enum (.signed path n)) heap
  | noObject (path : TypePath) (heap : Heap) : Reads m t (.object path) heap .null .null heap
  | object {path : TypePath} {k : Handle} {o : ObjectRef} (heap : Heap)
    (hres : t.resolve? k = some o) (h : m.isAssignable o.type path = true) :
    Reads m t (.object path) heap (.handle k) (.object o) heap
  | noArray (element : ManagedType) (heap : Heap) :
    Reads m t (.array element) heap .null .null heap
  | array {element : ManagedType} {a : NativeArray} {heap heap' : Heap}
    {items : List ManagedValue} (hkind : nativeKind m element = .ok a.kind)
    (h : readAll (toManaged m t element) heap (a.elements.map .ofElement) = .ok (items, heap')) :
    Reads m t (.array element) heap (.array a) (.array (heap'.newArray items).1)
      (heap'.newArray items).2

/-- A managed value is written as a value of a type. -/
inductive Writes (m : BindingModel) (heap : Heap) :
    ManagedType → HandleTable → ManagedValue → NativeValue → HandleTable → Prop
  | void (t : HandleTable) (w : ManagedValue) : Writes m heap .void t w .void t
  | primitive {p : Primitive} {s s' : Scalar} (t : HandleTable) (h : Converts p s s') :
    Writes m heap (.primitive p) t (.scalar s) (.scalar s') t
  | noText (t : HandleTable) : Writes m heap .string t .null .null t
  | string {s : String} {c : ConstText} (t : HandleTable) (h : ConstText.ofText? s = some c) :
    Writes m heap .string t (.string s) (.str c) t
  | enum {e : BoundEnum} {w : EnumValue} {n : Int} (t : HandleTable)
    (he : m.enum? w.type = some e) (hn : numberOf e.underlying w = n)
    (hp : e.underlying.holds n = true) :
    Writes m heap (.enum w.type) t (.enum w) (.scalar (.integer e.underlying n hp)) t
  | number {path : TypePath} {e : BoundEnum} {q : Primitive} {n : Int} (t : HandleTable)
    (he : m.enum? path = some e) (hq : q.holds n = true) (hp : e.underlying.holds n = true) :
    Writes m heap (.enum path) t (.scalar (.integer q n hq))
      (.scalar (.integer e.underlying n hp)) t
  | noObject (path : TypePath) (t : HandleTable) : Writes m heap (.object path) t .null .null t
  | object {path : TypePath} {o : ObjectRef} (t : HandleTable)
    (h : m.isAssignable o.type path = true) :
    Writes m heap (.object path) t (.object o) (.handle (t.root o).1) (t.root o).2
  | noArray (element : ManagedType) (t : HandleTable) :
    Writes m heap (.array element) t .null .null t
  | array {element : ManagedType} {r : ArrayRef} {kind : Kind} {a b : NativeArray}
    {t t' : HandleTable} (hkind : nativeKind m element = .ok kind)
    (hnew : NativeArray.new? kind = some a)
    (h : writeAll (toNative m heap element) a t (heap.items r) = (.ok b, t')) :
    Writes m heap (.array element) t (.array r) (.array b) t'

lemma ofInt?_eq_some_iff {p : Primitive} {v : Int} {s : Scalar} :
    Scalar.ofInt? p v = some s ↔ ∃ h : p.holds v = true, s = .integer p v h := by
  rw [Scalar.ofInt?]
  split
  · rename_i h
    simp [h, eq_comm]
  · rename_i h
    simp [h]

lemma integerOf_eq_ok_iff {p : Primitive} {v : Int} {s : Scalar} :
    integerOf p v = .ok s ↔ ∃ h : p.holds v = true, s = .integer p v h := by
  rw [← ofInt?_eq_some_iff, integerOf]
  cases Scalar.ofInt? p v <;> simp

lemma integerOf_of_holds {p : Primitive} {v : Int} (h : p.holds v = true) :
    integerOf p v = .ok (.integer p v h) :=
  integerOf_eq_ok_iff.mpr ⟨h, rfl⟩

/-- The conversion of numbers, whatever a failure would say. -/
lemma convertScalar_eq_ok_iff {p : Primitive} {s t : Scalar} {found : String} :
    convertScalar p s found = .ok t ↔ Converts p s t := by
  constructor
  · intro h
    unfold convertScalar at h
    split at h
    · cases h
      exact .bool _
    · cases h
      exact .single _
    · split at h
      · rename_i hnarrow
        cases h
        exact .narrow hnarrow
      · cases h
    · cases h
      exact .double _
    · cases h
      exact .widen _
    · cases h
    · cases h
    · cases h
    · cases s with
      | integer q v hq =>
        simp only [Scalar.integer?] at h
        split at h
        · rename_i hfits
          cases h
          obtain ⟨hp, rfl⟩ := ofInt?_eq_some_iff.mp hfits
          exact .integer hq hp
        · cases h
      | _ => cases h
  · intro h
    cases h with
    | bool | single | double | widen => rfl
    | narrow h => simp only [convertScalar, h]
    | @integer _ q v hq hp =>
      have hfits : Scalar.ofInt? p v = some (.integer p v hp) := ofInt?_eq_some_iff.mpr ⟨hp, rfl⟩
      -- of the types for which there is a branch of its own, none has integers
      cases p with
      | bool | float32 | float64 => cases hp
      | _ => simp only [convertScalar, Scalar.integer?, hfits]

variable {m : BindingModel}

lemma textOf_eq_ok_iff {octets : List UInt8} {w : ManagedValue} :
    textOf octets = .ok w ↔ ∃ s, Text.ofUtf8 octets = .ok s ∧ w = .string s := by
  rw [textOf]
  cases Text.ofUtf8 octets with
  | error fault => simp
  | ok s => simp [eq_comm]

lemma resolve_eq_ok_iff {t : HandleTable} {k : Handle} {path : TypePath} {o : ObjectRef} :
    resolve m t k path = .ok o ↔
      t.resolve? k = some o ∧ m.isAssignable o.type path = true := by
  rw [resolve]
  cases t.resolve? k with
  | none => simp
  | some o' =>
    by_cases h : m.isAssignable o'.type path = true
    · simp only [h, if_true, Except.ok.injEq, Option.some.injEq]
      constructor
      · rintro rfl
        exact ⟨rfl, h⟩
      · exact fun h => h.1
    · simp only [h, Option.some.injEq]
      constructor
      · intro h; cases h
      · rintro ⟨rfl, h'⟩
        exact absurd h' h

lemma reads_of_toManaged {t : HandleTable} {type : ManagedType} {heap heap' : Heap}
    {v : NativeValue} {w : ManagedValue} (h : toManaged m t type heap v = .ok (w, heap')) :
    Reads m t type heap v w heap' := by
  cases type with
  | void =>
    cases h
    exact .void heap v
  | primitive p =>
    simp only [toManaged] at h
    cases v with
    | scalar s =>
      obtain ⟨s', hs, heq⟩ := map_eq_ok_iff.mp h
      cases heq
      exact .primitive heap (convertScalar_eq_ok_iff.mp hs)
    | _ => cases h
  | string =>
    simp only [toManaged] at h
    cases v with
    | null =>
      cases h
      exact .noText heap
    | str c =>
      obtain ⟨w', hw, heq⟩ := map_eq_ok_iff.mp h
      obtain ⟨s, hs, rfl⟩ := textOf_eq_ok_iff.mp hw
      cases heq
      exact .str heap hs
    | text b =>
      obtain ⟨w', hw, heq⟩ := map_eq_ok_iff.mp h
      obtain ⟨s, hs, rfl⟩ := textOf_eq_ok_iff.mp hw
      cases heq
      exact .text heap hs
    | _ => cases h
  | enum path =>
    simp only [toManaged] at h
    cases he : m.enum? path with
    | none => rw [he] at h; cases h
    | some e =>
      rw [he] at h
      cases v with
      | scalar s =>
        cases s with
        | integer q n hq =>
          obtain ⟨s, hs, heq⟩ := map_eq_ok_iff.mp h
          obtain ⟨hp, rfl⟩ := integerOf_eq_ok_iff.mp hs
          cases heq
          exact .enum heap he hq hp
        | _ => cases h
      | _ => cases h
  | object path =>
    simp only [toManaged] at h
    cases v with
    | null =>
      cases h
      exact .noObject path heap
    | handle k =>
      obtain ⟨o, ho, heq⟩ := map_eq_ok_iff.mp h
      obtain ⟨hres, hassignable⟩ := resolve_eq_ok_iff.mp ho
      cases heq
      exact .object heap hres hassignable
    | _ => cases h
  | array element =>
    simp only [toManaged] at h
    cases v with
    | null =>
      cases h
      exact .noArray element heap
    | array a =>
      cases hkind : nativeKind m element with
      | error e => rw [hkind] at h; cases h
      | ok kind =>
        rw [hkind] at h
        dsimp only at h
        split at h
        · rename_i hsame
          subst hsame
          cases hread : readAll (toManaged m t element) heap (a.elements.map .ofElement) with
          | error e => rw [hread] at h; cases h
          | ok r =>
            rw [hread] at h
            cases h
            exact .array hkind hread
        · cases h
    | _ => cases h

/-- The conversion to managed values gives a value exactly when one is read. -/
lemma toManaged_eq_ok_iff {t : HandleTable} {type : ManagedType} {heap heap' : Heap}
    {v : NativeValue} {w : ManagedValue} :
    toManaged m t type heap v = .ok (w, heap') ↔ Reads m t type heap v w heap' := by
  constructor
  · exact reads_of_toManaged
  · intro h
    cases h with
    | void | noText | noObject | noArray => rfl
    | primitive _ h => simp only [toManaged, convertScalar_eq_ok_iff.mpr h, Except.map]
    | str _ h => simp only [toManaged, textOf, h, Except.map]
    | text _ h => simp only [toManaged, textOf, h, Except.map]
    | enum _ he hq hp => simp only [toManaged, he, integerOf_of_holds hp, Except.map]
    | object _ hres h => simp only [toManaged, resolve, hres, h, if_true, Except.map]
    | array hkind h => simp only [toManaged, hkind, h, if_true]

lemma writes_of_toNative {heap : Heap} {type : ManagedType} {t t' : HandleTable}
    {w : ManagedValue} {n : NativeValue} (h : toNative m heap type t w = (.ok n, t')) :
    Writes m heap type t w n t' := by
  -- a number fits or not, and needs no handle
  have hnumber : ∀ {r : Except ConversionFault Scalar},
      (r.map NativeValue.scalar, t) = (.ok n, t') → t = t' ∧ ∃ s, r = .ok s ∧ .scalar s = n := by
    intro r hr
    obtain ⟨hr, ht⟩ := Prod.mk.inj hr
    exact ⟨ht, map_eq_ok_iff.mp hr⟩
  cases type with
  | void =>
    cases h
    exact .void t w
  | primitive p =>
    simp only [toNative] at h
    cases w with
    | scalar s =>
      obtain ⟨rfl, s', hs, rfl⟩ := hnumber h
      exact .primitive t (convertScalar_eq_ok_iff.mp hs)
    | _ => cases h
  | string =>
    simp only [toNative] at h
    cases w with
    | null =>
      cases h
      exact .noText t
    | string s =>
      dsimp only at h
      cases hs : ConstText.ofText? s with
      | none => rw [hs] at h; cases h
      | some c =>
        rw [hs] at h
        cases h
        exact .string t hs
    | _ => cases h
  | enum path =>
    simp only [toNative] at h
    cases he : m.enum? path with
    | none => rw [he] at h; cases h
    | some e =>
      rw [he] at h
      cases w with
      | enum w =>
        dsimp only at h
        split at h
        · rename_i htype
          subst htype
          obtain ⟨rfl, s, hs, rfl⟩ := hnumber h
          obtain ⟨hp, rfl⟩ := integerOf_eq_ok_iff.mp hs
          exact .enum t he rfl hp
        · cases h
      | scalar s =>
        cases s with
        | integer q v hq =>
          obtain ⟨rfl, s, hs, rfl⟩ := hnumber h
          obtain ⟨hp, rfl⟩ := integerOf_eq_ok_iff.mp hs
          exact .number t he hq hp
        | _ => cases h
      | _ => cases h
  | object path =>
    simp only [toNative] at h
    cases w with
    | null =>
      cases h
      exact .noObject path t
    | object o =>
      dsimp only at h
      split at h
      · rename_i hassignable
        cases h
        exact .object t hassignable
      · cases h
    | _ => cases h
  | array element =>
    simp only [toNative] at h
    cases w with
    | null =>
      cases h
      exact .noArray element t
    | array r =>
      cases hkind : nativeKind m element with
      | error e => rw [hkind] at h; cases h
      | ok kind =>
        rw [hkind] at h
        cases hnew : NativeArray.new? kind with
        | none => simp only [hnew] at h; cases h
        | some a =>
          simp only [hnew] at h
          obtain ⟨hresult, rfl⟩ := Prod.mk.inj h
          obtain ⟨b, hb, rfl⟩ := map_eq_ok_iff.mp hresult
          exact .array hkind hnew (Prod.ext hb rfl)
    | _ => cases h

/-- The conversion to native values gives a value exactly when one is written. -/
lemma toNative_eq_ok_iff {heap : Heap} {type : ManagedType} {t t' : HandleTable}
    {w : ManagedValue} {n : NativeValue} :
    toNative m heap type t w = (.ok n, t') ↔ Writes m heap type t w n t' := by
  constructor
  · exact writes_of_toNative
  · intro h
    cases h with
    | void | noText | noObject | noArray => rfl
    | primitive _ h => simp only [toNative, convertScalar_eq_ok_iff.mpr h, Except.map]
    | string _ h => simp only [toNative, h]
    | enum _ he hn hp =>
      rw [numberOf] at hn
      simp only [toNative, he, if_true, hn, integerOf_of_holds hp, Except.map]
    | number _ he hq hp => simp only [toNative, he, integerOf_of_holds hp, Except.map]
    | object _ h => simp only [toNative, h, if_true]
    | array hkind hnew h => simp only [toNative, hkind, hnew, h, Except.map]

end Interop.Marshal
