/-
# Handles that are good, and handles that are not

A native value carries a handle as an object of a class if it is that handle, or an array with it,
and is a value of the fitting type.  A handle that was written resolves to an object of its class
(`exists_object_of_writes`), and a conversion that fails for a handle fails for one that the value
carries (`exists_carries_of_error`).
-/
import Interop.Proofs.Marshal.RoundTrip

namespace Interop.Marshal

open Model Native Managed

/-- A value of a type carries a handle as an object of a class. -/
inductive Carries : ManagedType → NativeValue → Handle → TypePath → Prop
  | handle (path : TypePath) (h : Handle) : Carries (.object path) (.handle h) h path
  | element (path : TypePath) {a : NativeArray} {h : Handle} (hmem : .handle h ∈ a.elements) :
    Carries (.array (.object path)) (.array a) h path

/-! ### What was written -/

variable {m : BindingModel} {t t' : HandleTable}

/-- The handle that was written for an object resolves to it. -/
lemma exists_object_of_writes_handle (ht : t.Reachable) {heap : Heap} {path : TypePath}
    {w : ManagedValue} {h : Handle} (hw : Writes m heap (.object path) t w (.handle h) t') :
    ∃ o, t'.resolve? h = some o ∧ m.isAssignable o.type path = true := by
  cases hw with
  | @object _ o _ hassignable => exact ⟨o, ht.resolve?_root o, hassignable⟩

/-- So does every handle that a written value carries. -/
lemma exists_object_of_writes (ht : t.Reachable) {heap : Heap} {type : ManagedType}
    {w : ManagedValue} {n : NativeValue} (hw : Writes m heap type t w n t') {h : Handle}
    {path : TypePath} (hc : Carries type n h path) :
    ∃ o, t'.resolve? h = some o ∧ m.isAssignable o.type path = true := by
  cases hc with
  | handle => exact exists_object_of_writes_handle ht hw
  | element _ hmem =>
    cases hw with
    | array hkind hnew hwrite =>
      cases hkind
      cases hnew
      obtain ⟨_, es, rfl, hes⟩ := of_writeAll (rooting_toNative m heap _) _ ht hwrite
      obtain ⟨v, _, n, t₁, t₂, ht₁, hn, hle, helement⟩ := exists_of_mem_forall₂ hes hmem
      have hwrites := toNative_eq_ok_iff.mp hn
      -- an object is written as a handle or as null, and only the handle as this element
      have hn : n = .handle h := by
        rw [← ofElement_of_elementOf helement ?_]
        · rfl
        · rintro b rfl
          cases hwrites
      subst hn
      obtain ⟨o, hres, hassignable⟩ := exists_object_of_writes_handle ht₁ hwrites
      exact ⟨o, HandleTable.resolve?_of_le hle hres, hassignable⟩

/-! ### What could not be read -/

/-- Tells whether a fault says that a handle is unknown, or that its object is of a wrong class. -/
def ConversionFault.concernsHandle : ConversionFault → Bool
  | .invalidHandle _ | .incompatibleHandle _ _ => true
  | _ => false

lemma concernsHandle_of_convertScalar {p : Primitive} {s : Scalar} {found : String}
    {fault : ConversionFault} (h : convertScalar p s found = .error fault) :
    fault.concernsHandle = false := by
  unfold convertScalar at h
  split at h
  · cases h
  · cases h
  · split at h
    · cases h
    · cases h; rfl
  · cases h
  · cases h
  · cases h; rfl
  · cases h; rfl
  · cases h; rfl
  · split at h
    · cases h; rfl
    · split at h
      · cases h
      · cases h; rfl

lemma concernsHandle_of_integerOf {p : Primitive} {v : Int} {fault : ConversionFault}
    (h : integerOf p v = .error fault) : fault.concernsHandle = false := by
  rw [integerOf] at h
  split at h
  · cases h
  · cases h; rfl

lemma concernsHandle_of_textOf {octets : List UInt8} {fault : ConversionFault}
    (h : textOf octets = .error fault) : fault.concernsHandle = false := by
  rw [textOf] at h
  split at h
  · cases h
  · cases h; rfl

lemma concernsHandle_of_nativeKind {type : ManagedType} {fault : ConversionFault}
    (h : nativeKind m type = .error fault) : fault.concernsHandle = false := by
  cases type with
  | enum path =>
    rw [nativeKind] at h
    split at h
    · cases h
    · cases h; rfl
  | _ => cases h

lemma exists_of_readAll_error
    {read : Heap → NativeValue → Except ConversionFault (ManagedValue × Heap)}
    {fault : ConversionFault} (ns : List NativeValue) :
    ∀ {heap : Heap}, readAll read heap ns = .error fault →
      ∃ n ∈ ns, ∃ heap, read heap n = .error fault := by
  induction ns with
  | nil =>
    intro heap h
    cases h
  | cons n ns ih =>
    intro heap h
    rw [readAll] at h
    split at h
    · rename_i hn
      cases h
      exact ⟨n, List.mem_cons_self, heap, hn⟩
    · split at h
      · rename_i hns
        cases h
        obtain ⟨n', hn', hread⟩ := ih hns
        exact ⟨n', List.mem_cons_of_mem _ hn', hread⟩
      · cases h

/-- A value that could not be read for a handle carries one that could not be resolved. -/
lemma exists_carries_of_error {type : ManagedType} {fault : ConversionFault}
    (hfault : fault.concernsHandle = true) {heap : Heap} {v : NativeValue}
    (h : toManaged m t type heap v = .error fault) :
    ∃ k path, Carries type v k path ∧ resolve m t k path = .error fault := by
  have hnever : fault.concernsHandle ≠ false := by rw [hfault]; simp
  induction type generalizing heap v with
  | void => cases h
  | primitive p =>
    simp only [toManaged] at h
    cases v with
    | scalar s => exact absurd (concernsHandle_of_convertScalar (eq_error_of_map h)) hnever
    | _ => cases h; cases hfault
  | string =>
    simp only [toManaged] at h
    cases v with
    | null => cases h
    | str c => exact absurd (concernsHandle_of_textOf (eq_error_of_map h)) hnever
    | text b => exact absurd (concernsHandle_of_textOf (eq_error_of_map h)) hnever
    | _ => cases h; cases hfault
  | enum path =>
    simp only [toManaged] at h
    cases he : m.enum? path with
    | none => rw [he] at h; cases h; cases hfault
    | some e =>
      rw [he] at h
      cases v with
      | scalar s =>
        cases s with
        | integer q n hq =>
          exact absurd (concernsHandle_of_integerOf (eq_error_of_map h)) hnever
        | _ => cases h; cases hfault
      | _ => cases h; cases hfault
  | object path =>
    simp only [toManaged] at h
    cases v with
    | null => cases h
    | handle k => exact ⟨k, path, .handle path k, eq_error_of_map h⟩
    | _ => cases h; cases hfault
  | array element ih =>
    simp only [toManaged] at h
    cases v with
    | null => cases h
    | array a =>
      cases hkind : nativeKind m element with
      | error e =>
        rw [hkind] at h
        cases h
        exact absurd (concernsHandle_of_nativeKind hkind) hnever
      | ok kind =>
        rw [hkind] at h
        dsimp only at h
        split at h
        · split at h
          · rename_i hread
            cases h
            -- the element that could not be read is itself the handle
            obtain ⟨n, hn, heap, hfailed⟩ := exists_of_readAll_error _ hread
            obtain ⟨e, he, rfl⟩ := List.mem_map.mp hn
            obtain ⟨k, path, hcarries, hresolve⟩ := ih hfailed
            refine ⟨k, path, ?_, hresolve⟩
            generalize hofe : NativeValue.ofElement e = n at hcarries
            cases hcarries with
            | handle =>
              cases e <;> cases hofe
              exact .element path he
            | element => cases e <;> cases hofe
          · cases h
        · cases h; cases hfault
    | _ => cases h; cases hfault

end Interop.Marshal
