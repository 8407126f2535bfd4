/-
# What was read has one native form

The native form of a value that was read from native code does not depend on when it is asked for:
the objects in it have their handles already, and these are kept.  Of the heap it depends on the
elements of the array that was read, and on nothing else.  Default values have a native form that
depends on nothing.
-/
import Interop.Proofs.Marshal.Fits

namespace Interop.Marshal

open Model Native Managed

variable {m : BindingModel} {t : HandleTable}

/-- A text has its native form, or none, independent of everything. -/
lemma exists_toNative_text (m : BindingModel) (s : String) :
    ∃ r, ∀ heap t, toNative m heap .string t (.string s) = (r, t) := by
  simp only [toNative]
  cases ConstText.ofText? s with
  | none => exact ⟨_, fun _ _ => rfl⟩
  | some c => exact ⟨_, fun _ _ => rfl⟩

/-- A single value that was read. -/
lemma exists_toNative_of_reads_one {type : ManagedType} (hone : m.PassesOne type)
    {heap heap' : Heap} {v : NativeValue} {w : ManagedValue} (h : Reads m t type heap v w heap') :
    ∃ r, ∀ heap₁ t₁, t₁.Reachable → t ≤ t₁ → toNative m heap₁ type t₁ w = (r, t₁) := by
  cases h with
  | void | noArray | array => cases hone
  | primitive | noText | noObject => exact ⟨_, fun _ _ _ _ => rfl⟩
  | str | text =>
    obtain ⟨r, hr⟩ := exists_toNative_text m _
    exact ⟨r, fun heap₁ t₁ _ _ => hr heap₁ t₁⟩
  | @enum path e q n _ he =>
    refine ⟨(toNative m heap (.enum path) t (.enum (.signed path n))).1, fun heap₁ t₁ _ _ => ?_⟩
    simp only [toNative, he, EnumValue.signed, if_true]
  | @object path k o _ hres hassignable =>
    refine ⟨.ok (.handle k), fun heap₁ t₁ ht₁ hle => ?_⟩
    have hroot : t₁.root o = (k, t₁) := ht₁.root_of_resolve? (HandleTable.resolve?_of_le hle hres)
    simp only [toNative, hassignable, if_true, hroot]

lemma heap_of_reads_one {type : ManagedType} (hone : m.PassesOne type) {heap heap' : Heap}
    {v : NativeValue} {w : ManagedValue} (h : Reads m t type heap v w heap') : heap' = heap := by
  cases h with
  | void | array => cases hone
  | _ => rfl

/-- Values each of which has one native form are put into an array in one way. -/
lemma exists_writeAll {f : Heap → HandleTable → ManagedValue →
    Except ConversionFault NativeValue × HandleTable} {P : HandleTable → Prop}
    (ws : List ManagedValue) :
    (∀ w ∈ ws, ∃ r, ∀ heap₁ t₁, P t₁ → f heap₁ t₁ w = (r, t₁)) →
      ∀ a, ∃ r, ∀ heap₁ t₁, P t₁ → writeAll (f heap₁) a t₁ ws = (r, t₁) := by
  induction ws with
  | nil => exact fun _ a => ⟨.ok a, fun _ _ _ => rfl⟩
  | cons w ws ih =>
    intro h a
    obtain ⟨r, hr⟩ := h w List.mem_cons_self
    have hrest := ih fun w' hw' => h w' (List.mem_cons_of_mem _ hw')
    cases r with
    | error e => exact ⟨.error e, fun heap₁ t₁ ht₁ => by rw [writeAll, hr heap₁ t₁ ht₁]⟩
    | ok n =>
      cases hpush : push a n with
      | error e =>
        exact ⟨.error e, fun heap₁ t₁ ht₁ => by simp only [writeAll, hr heap₁ t₁ ht₁, hpush]⟩
      | ok a' =>
        obtain ⟨r, hr'⟩ := hrest a'
        refine ⟨r, fun heap₁ t₁ ht₁ => ?_⟩
        simp only [writeAll, hr heap₁ t₁ ht₁, hpush]
        exact hr' heap₁ t₁ ht₁

/-- The native form of a value that was read is the same at all later times, as long as the elements
of the array that was made for it are. -/
lemma exists_toNative_of_reads {type : ManagedType} (hpasses : m.Passes type) {heap heap' : Heap}
    {v : NativeValue} {w : ManagedValue} (h : Reads m t type heap v w heap') :
    ∃ r, ∀ heap₁ t₁, t₁.Reachable → t ≤ t₁ →
      (∀ a, w = .array a → heap₁.items a = heap'.items a) →
        toNative m heap₁ type t₁ w = (r, t₁) := by
  cases hpasses with
  | one hone =>
    obtain ⟨r, hr⟩ := exists_toNative_of_reads_one hone h
    exact ⟨r, fun heap₁ t₁ ht₁ hle _ => hr heap₁ t₁ ht₁ hle⟩
  | @array element hone =>
    cases h with
    | noArray => exact ⟨_, fun _ _ _ _ _ => rfl⟩
    | @array _ a _ heap₂ items hkind hread =>
      obtain ⟨rfl, hall⟩ := of_readAll _ (fun n _ w heap' hw =>
        heap_of_reads_one hone (toManaged_eq_ok_iff.mp hw)) hread
      cases hnew : NativeArray.new? a.kind with
      | none =>
        refine ⟨.error (.typeMismatch (ManagedType.array element).text a.kind.text),
          fun heap₁ t₁ _ _ _ => ?_⟩
        simp only [toNative, hkind, hnew]
      | some b =>
        obtain ⟨r, hr⟩ := exists_writeAll (f := fun heap₁ => toNative m heap₁ element)
          (P := fun t₁ => t₁.Reachable ∧ t ≤ t₁) items (by
            intro w hw
            obtain ⟨n, _, hn⟩ := exists_of_mem_forall₂ hall hw
            obtain ⟨r, hr⟩ := exists_toNative_of_reads_one hone (toManaged_eq_ok_iff.mp hn)
            exact ⟨r, fun heap₁ t₁ ht₁ => hr heap₁ t₁ ht₁.1 ht₁.2⟩) b
        refine ⟨r.map .array, fun heap₁ t₁ ht₁ hle hitems => ?_⟩
        have hsame := (hitems _ rfl).trans (items_newArray heap₂ items)
        simp only [toNative, hkind, hnew, hsame, hr heap₁ t₁ ⟨ht₁, hle⟩]

/-- The default value of a type has a native form. -/
lemma exists_toNative_default
    (hm : ∀ path e, m.enum? path = some e → e.underlying.isIntegral = true)
    {type : ManagedType} (hpasses : type = .void ∨ m.Passes type) :
    ∃ n, ∀ heap t, toNative m heap type t (defaultValue m type) = (.ok n, t) := by
  rcases hpasses with rfl | hone | _
  · exact ⟨.void, fun _ _ => rfl⟩
  · have hfits := fitsOne_default hm hone
    cases hone with
    | primitive p => exact ⟨.scalar (.zero p), fun _ _ => by cases p <;> rfl⟩
    | string | object => exact ⟨.null, fun _ _ => rfl⟩
    | @enum path e he =>
      have hdefault : defaultValue m (.enum path) = .enum ⟨path, 0⟩ := by rw [defaultValue, he]; rfl
      rw [hdefault] at hfits ⊢
      generalize EnumValue.mk path 0 = w at hfits ⊢
      cases hfits with
      | enum he' hrange =>
        exact ⟨_, fun heap t => toNative_eq_ok_iff.mpr (.enum t he' rfl hrange)⟩
  · exact ⟨.null, fun _ _ => rfl⟩

end Interop.Marshal
