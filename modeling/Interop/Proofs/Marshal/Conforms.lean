/-
# Native values of a type

The conversion to native values gives values of the kind of the type: numbers of its own type,
constant text, handles and arrays of the kind of the elements, and null where the type has it.
-/
import Interop.Proofs.Marshal.Success
import Interop.Proofs.Model.PassedTypes

namespace Interop.Marshal

open Model Native Managed

/-- The native values of a type: those of the kind of the type, a text without NUL, and null where
the type has it. -/
inductive Conforms (m : BindingModel) : ManagedType → NativeValue → Prop
  | scalar {type : ManagedType} (s : Scalar) (h : nativeKind m type = .ok (.scalar s.type)) :
    Conforms m type (.scalar s)
  | str (t : ConstText) : Conforms m .string (.str t)
  | text (b : TextBuffer) (h : (0 : UInt8) ∉ b.octets) : Conforms m .string (.text b)
  | noText : Conforms m .string .null
  | handle (path : TypePath) (h : Handle) : Conforms m (.object path) (.handle h)
  | noObject (path : TypePath) : Conforms m (.object path) .null
  | array {element : ManagedType} (a : NativeArray) (h : nativeKind m element = .ok a.kind) :
    Conforms m (.array element) (.array a)
  | noArray (element : ManagedType) : Conforms m (.array element) .null

lemma kind_of_push {a b : NativeArray} {n : NativeValue} (h : push a n = .ok b) :
    b.kind = a.kind := by
  rw [push] at h
  cases he : elementOf a.kind n with
  | error e => rw [he] at h; cases h
  | ok e =>
    rw [he] at h
    cases h
    rfl

lemma kind_of_writeAll
    {write : HandleTable → ManagedValue → Except ConversionFault NativeValue × HandleTable}
    (vs : List ManagedValue) :
    ∀ {a b : NativeArray} {t t' : HandleTable}, writeAll write a t vs = (.ok b, t') →
      b.kind = a.kind := by
  induction vs with
  | nil =>
    intro a b t t' h
    cases h
    rfl
  | cons v vs ih =>
    intro a b t t' h
    rw [writeAll] at h
    split at h
    · cases h
    · split at h
      · cases h
      · rename_i a' hpush
        rw [ih h, kind_of_push hpush]

lemma kind_of_new? {kind : Kind} {a : NativeArray} (h : NativeArray.new? kind = some a) :
    a.kind = kind := by
  rw [NativeArray.new?] at h
  split at h
  · cases h
    rfl
  · cases h

/-- Whatever is written as a value of a type conforms to the type, unless there are no values of
it. -/
lemma conforms_of_writes {m : BindingModel} {type : ManagedType} (hpasses : m.Passes type)
    {heap : Heap} {t t' : HandleTable} {w : ManagedValue} {n : NativeValue}
    (h : Writes m heap type t w n t') : Conforms m type n := by
  cases h with
  | void =>
    obtain ⟨hone⟩ := hpasses
    cases hone
  | primitive _ hs => exact .scalar _ (by rw [hs.type_eq]; rfl)
  | noText => exact .noText
  | string => exact .str _
  | enum _ he => exact .scalar _ (by simp only [nativeKind, he, Scalar.type])
  | number _ he => exact .scalar _ (by simp only [nativeKind, he, Scalar.type])
  | noObject path => exact .noObject path
  | object => exact .handle _ _
  | noArray element => exact .noArray element
  | array hkind hnew hwrite =>
    refine .array _ ?_
    rw [hkind, kind_of_writeAll _ hwrite, kind_of_new? hnew]

end Interop.Marshal
