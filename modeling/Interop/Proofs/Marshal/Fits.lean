/-
# Values that fit a declared type

Managed code sees only values that fit the types it declared: what was read as a type fits it, and
so does the value that an out parameter begins with.  In the other direction, whatever the code
made of its values, what is written fits the type or is not written at all.
-/
import Interop.Proofs.Marshal.Conforms
import Interop.Proofs.Marshal.RoundTrip

namespace Interop.Marshal

open Model Native Managed

/-! ### On the managed side -/

/-- A single managed value fits a type: a value of exactly that primitive type, a text or null, a
value of that enum within its range, and an object of an assignable class or null. -/
inductive FitsOne (m : BindingModel) : ManagedType → ManagedValue → Prop
  | primitive (s : Scalar) : FitsOne m (.primitive s.type) (.scalar s)
  | string (text : String) : FitsOne m .string (.string text)
  | noText : FitsOne m .string .null
  | enum {w : EnumValue} {e : BoundEnum} (he : m.enum? w.type = some e)
    (hrange : e.underlying.holds (numberOf e.underlying w) = true) :
    FitsOne m (.enum w.type) (.enum w)
  | object {path : TypePath} {o : ObjectRef} (h : m.isAssignable o.type path = true) :
    FitsOne m (.object path) (.object o)
  | noObject (path : TypePath) : FitsOne m (.object path) .null

/-- A managed value fits a type: an array is on the heap, and all its elements fit the type of
elements. -/
inductive Fits (m : BindingModel) (heap : Heap) : ManagedType → ManagedValue → Prop
  | one {type : ManagedType} {w : ManagedValue} (h : FitsOne m type w) : Fits m heap type w
  | array {element : ManagedType} {r : ArrayRef} (hr : r.index < heap.arrays.length)
    (h : ∀ w ∈ heap.items r, FitsOne m element w) : Fits m heap (.array element) (.array r)
  | noArray (element : ManagedType) : Fits m heap (.array element) .null

/-- A value fits also when arrays were added to the heap. -/
lemma Fits.mono {m : BindingModel} {heap heap' : Heap} {type : ManagedType} {w : ManagedValue}
    (h : Fits m heap type w) (hgrow : heap.arrays <+: heap'.arrays) : Fits m heap' type w := by
  cases h with
  | one h => exact .one h
  | noArray element => exact .noArray element
  | @array element r hr h =>
    obtain ⟨rest, hrest⟩ := hgrow
    have hitems : heap'.items r = heap.items r := by
      rw [Heap.items, Heap.items, List.getD_eq_getElem?_getD, List.getD_eq_getElem?_getD, ← hrest,
        List.getElem?_append_left hr]
    refine .array ?_ (hitems ▸ h)
    rw [← hrest, List.length_append]
    omega

section

variable {m : BindingModel} (hm : ∀ path e, m.enum? path = some e → e.underlying.isIntegral = true)

include hm

/-- Zero is in the range of every enum. -/
lemma fitsOne_default {type : ManagedType} (hpasses : m.PassesOne type) :
    FitsOne m type (defaultValue m type) := by
  cases hpasses with
  | primitive p =>
    have hzero : FitsOne m (.primitive (Scalar.zero p).type) (.scalar (.zero p)) := .primitive _
    rwa [Scalar.type_zero] at hzero
  | string => exact .noText
  | object => exact .noObject _
  | @enum path e he =>
    rw [defaultValue, he]
    have hnumber : numberOf e.underlying ⟨path, 0⟩ = 0 := by
      rw [numberOf]
      split <;> rfl
    refine .enum (w := ⟨path, 0⟩) he ?_
    obtain ⟨lo, hi, hrange, hlo, hhi⟩ := Primitive.exists_integerRange? (hm path e he)
    rw [hnumber, Primitive.holds, hrange]
    simp [hlo, hhi]

/-- A single value that was read fits, and left the heap alone. -/
lemma fitsOne_of_reads {t : HandleTable} {type : ManagedType} (hpasses : m.PassesOne type)
    {heap heap' : Heap} {v : NativeValue} {w : ManagedValue} (h : Reads m t type heap v w heap') :
    heap' = heap ∧ FitsOne m type w := by
  cases h with
  | void => cases hpasses
  | @primitive p s s' _ hs =>
    obtain rfl := hs.type_eq
    exact ⟨rfl, .primitive s'⟩
  | noText => exact ⟨rfl, .noText⟩
  | str | text => exact ⟨rfl, .string _⟩
  | @enum path e q n _ he hq hp =>
    have hn := numberOf_signed path (hm path e he) hp
    exact ⟨rfl, .enum (w := .signed path n) he (hn.symm ▸ hp)⟩
  | noObject path => exact ⟨rfl, .noObject path⟩
  | object _ _ hassignable => exact ⟨rfl, .object hassignable⟩
  | noArray | array => cases hpasses

/-- Elements that were read fit, and left the heap alone. -/
lemma fitsOne_of_readAll {t : HandleTable} {type : ManagedType} (hpasses : m.PassesOne type)
    {heap heap' : Heap} {vs : List NativeValue} {ws : List ManagedValue}
    (h : readAll (toManaged m t type) heap vs = .ok (ws, heap')) : ∀ w ∈ ws, FitsOne m type w := by
  have hread : ∀ {heap v w heap'}, toManaged m t type heap v = .ok (w, heap') →
      heap' = heap ∧ FitsOne m type w :=
    fun hv => fitsOne_of_reads hm hpasses (toManaged_eq_ok_iff.mp hv)
  obtain ⟨_, hall⟩ := of_readAll vs (fun v _ w heap' hv => (hread hv).1) h
  intro w hw
  obtain ⟨v, _, hv⟩ := exists_of_mem_forall₂ hall hw
  exact (hread hv).2

/-- What was read fits. -/
lemma fits_of_reads {t : HandleTable} {type : ManagedType} (hpasses : m.Passes type)
    {heap heap' : Heap} {v : NativeValue} {w : ManagedValue} (h : Reads m t type heap v w heap') :
    Fits m heap' type w := by
  cases hpasses with
  | one hone => exact .one (fitsOne_of_reads hm hone h).2
  | array hone =>
    cases h with
    | noArray => exact .noArray _
    | array _ hread =>
      refine .array ?_ ?_
      · simp [Heap.newArray]
      · rw [items_newArray]
        exact fitsOne_of_readAll hm hone hread

end

/-! ### On the native side -/

/-- The types that have null. -/
inductive HasNull : ManagedType → Prop
  | string : HasNull .string
  | object (path : TypePath) : HasNull (.object path)
  | array (element : ManagedType) : HasNull (.array element)

/-- A native value fits a type: it is of the kind of the type, or null where the type has null; and
the elements of an array are of the kind of the type of elements. -/
structure NativeFits (m : BindingModel) (type : ManagedType) (n : NativeValue) : Prop where
  kind : n ≠ .null ∧ nativeKind m type = .ok n.kind ∨ n = .null ∧ HasNull type
  elements : ∀ element a, type = .array element → n = .array a →
    nativeKind m element = .ok a.kind ∧ ∀ e ∈ a.elements, e.fits a.kind = true

lemma fits_of_elementOf {kind : Kind} {n : NativeValue} {e : Element}
    (h : elementOf kind n = .ok e) : e.fits kind = true := by
  unfold elementOf at h
  dsimp only at h
  split at h
  · split at h
    · rename_i hkind
      cases h
      simp [Element.fits, hkind]
    · cases h
  · split at h
    · rename_i hkind
      cases h
      simp [Element.fits, hkind]
    · cases h
  · split at h
    · rename_i hkind
      split at h
      · cases h
        simp [Element.fits, hkind]
      · cases h
    · cases h
  · split at h
    · rename_i hkind
      cases h
      simp [Element.fits, hkind]
    · cases h
  · split at h
    · rename_i hkind
      cases h
      simpa [Element.fits] using hkind
    · cases h
  · cases h
  · cases h

/-- The elements of an array fit its kind if those did that it began with. -/
lemma fits_of_writeAll
    {write : HandleTable → ManagedValue → Except ConversionFault NativeValue × HandleTable}
    (vs : List ManagedValue) :
    ∀ {a b : NativeArray} {t t' : HandleTable}, writeAll write a t vs = (.ok b, t') →
      (∀ e ∈ a.elements, e.fits a.kind = true) → ∀ e ∈ b.elements, e.fits b.kind = true := by
  induction vs with
  | nil =>
    intro a b t t' h hfits
    cases h
    exact hfits
  | cons v vs ih =>
    intro a b t t' h hfits
    rw [writeAll] at h
    split at h
    · cases h
    · split at h
      · cases h
      · rename_i a' hpush
        refine ih h ?_
        obtain ⟨e', helement, rfl⟩ := map_eq_ok_iff.mp hpush
        intro e he
        rcases List.mem_append.mp he with he | he
        · exact hfits e he
        · rw [List.mem_singleton.mp he]
          exact fits_of_elementOf helement

lemma elements_of_new? {kind : Kind} {a : NativeArray} (h : NativeArray.new? kind = some a) :
    a.elements = [] := by
  rw [NativeArray.new?] at h
  split at h
  · cases h
    rfl
  · cases h

/-- What was written fits, also when there was nothing to write. -/
lemma nativeFits_of_writes {m : BindingModel} {type : ManagedType}
    (hpasses : type = .void ∨ m.Passes type) {heap : Heap} {t t' : HandleTable} {w : ManagedValue}
    {n : NativeValue} (h : Writes m heap type t w n t') : NativeFits m type n := by
  constructor
  · rcases hpasses with rfl | hpasses
    · cases h
      exact Or.inl ⟨by simp, rfl⟩
    · cases conforms_of_writes hpasses h with
      | scalar s hkind => exact Or.inl ⟨by simp, hkind⟩
      | str | text | handle | array => exact Or.inl ⟨by simp, rfl⟩
      | noText => exact Or.inr ⟨rfl, .string⟩
      | noObject path => exact Or.inr ⟨rfl, .object path⟩
      | noArray element => exact Or.inr ⟨rfl, .array element⟩
  · rintro element a rfl rfl
    cases h with
    | array hkind hnew hwrite =>
      refine ⟨?_, fits_of_writeAll _ hwrite ?_⟩
      · rw [hkind, kind_of_writeAll _ hwrite, kind_of_new? hnew]
      · rw [elements_of_new? hnew]
        simp

/-- A text buffer whose content was replaced is still one. -/
lemma nativeFits_text (m : BindingModel) (b : TextBuffer) : NativeFits m .string (.text b) :=
  ⟨Or.inl ⟨by simp, rfl⟩, fun _ _ htype _ => by cases htype⟩

end Interop.Marshal
