/-
# Slots and the storage that they point to

Slots are checked and read before a call, and the values that are to be written are compared with
them after it.  Here is what the checks of a call say about its slots, and why a value that comes
back from the managed side fits the slot that was checked for it.

Main results: `fits_and_holds`, `Storage.Holds.read`.
-/
import Interop.Abi
import Interop.Proofs.Marshal.Conforms
import Interop.Proofs.Scalar
import Interop.Proofs.Session.AllOrNothing

namespace Interop

open Model Native Managed Marshal Session

namespace Abi

/-! ### Storage -/

/-- Tells whether storage has the C type of a kind.  Nothing is read or written by reference as
`void` or as an array, so a pointer of these kinds may point to anything. -/
def Storage.isOf : Kind → Storage → Bool
  | .scalar _, .word _ | .handle, .word _ | .string, .text _ | .void, _ | .array, _ => true
  | _, _ => false

/-- Tells whether a slot is sound: storage that it points to has the C type of its kind. -/
def Slot.isSound (s : Slot) : Bool :=
  match Kind.ofCode? s.kind, s.passing with
  | some kind, .byRef (some storage) => Storage.isOf kind storage
  | _, _ => true

/-- Storage of a kind holds a value.  A text is held by a buffer with its octets, and no text by an
empty buffer. -/
inductive Storage.Holds : Kind → Storage → NativeValue → Prop
  | scalar (s : Scalar) : Holds (.scalar s.type) (.word s.bits) (.scalar s)
  | handle (h : Handle) : Holds .handle (.word h.raw) (.handle h)
  | noHandle : Holds .handle (.word 0) .null
  | text (t : ConstText) : Holds .string (.text (.ofOctets t.octets)) (.str t)
  | noText : Holds .string (.text .empty) .null

/-- What storage holds is what is read from it. -/
lemma Storage.Holds.read {kind : Kind} {storage : Storage} {n : NativeValue}
    (h : storage.Holds kind n) :
    readStorage kind storage = n ∨
      ∃ b, readStorage kind storage = .text b ∧ b.octets = n.octets?.getD [] := by
  cases h with
  | scalar s =>
    have hbits := s.ofBits_bits 0
    rw [Nat.mul_zero, Nat.add_zero] at hbits
    exact Or.inl (congrArg NativeValue.scalar hbits)
  | handle h => exact Or.inl (by simp [readStorage, NativeValue.ofRawHandle, Handle.ofRaw?,
      h.raw_ne_zero])
  | noHandle => exact Or.inl rfl
  | text t => exact Or.inr ⟨_, rfl, by simp [TextBuffer.copy, NativeValue.octets?]⟩
  | noText => exact Or.inr ⟨_, rfl, rfl⟩

/-- A value of a type that can be passed by reference fits the slot of its kind, and is held by the
storage afterwards. -/
lemma fits_and_holds {m : BindingModel} {heap : Heap} {type : ManagedType} {t t' : HandleTable}
    {v : ManagedValue} {old n new : NativeValue} {kind : Kind} {storage : Storage}
    (hone : m.PassesOne type) (hkind : nativeKind m type = .ok kind)
    (hn : toNative m heap type t v = (.ok n, t')) (hwrote : Wrote old n new)
    (hold : kind = .string ↔ ∃ b, old = .text b) (hstorage : Storage.isOf kind storage = true) :
    fitsSlot kind.code new = true ∧ (writeStorage storage new).Holds kind n := by
  have hplain : kind ≠ .string → new = n := by
    intro hne
    cases hwrote with
    | text b | noText b | other b => exact absurd (hold.mpr ⟨b, rfl⟩) hne
    | plain => rfl
  cases conforms_of_writes (.one hone) (toNative_eq_ok_iff.mp hn) with
  | scalar s hs =>
    obtain rfl := Except.ok.inj (hkind.symm.trans hs)
    rw [hplain nofun]
    cases storage with
    | text => cases hstorage
    | word bits => exact ⟨decide_eq_true rfl, .scalar s⟩
  | handle path h =>
    cases hkind
    rw [hplain nofun]
    cases storage with
    | text => cases hstorage
    | word bits => exact ⟨rfl, .handle h⟩
  | noObject path =>
    cases hkind
    rw [hplain nofun]
    cases storage with
    | text => cases hstorage
    | word bits => exact ⟨rfl, .noHandle⟩
  | str t =>
    cases hkind
    obtain ⟨b, rfl⟩ := hold.mp rfl
    cases storage with
    | word bits => cases hstorage
    | text c =>
      cases hwrote with
      | other _ _ _ hne => exact absurd rfl (hne t)
      | plain _ _ hne => exact absurd rfl (hne b)
      | text =>
        refine ⟨rfl, ?_⟩
        rw [writeStorage, TextBuffer.octets_ofOctets, TextBuffer.assign]
        exact .text t
  | noText =>
    cases hkind
    obtain ⟨b, rfl⟩ := hold.mp rfl
    cases storage with
    | word bits => cases hstorage
    | text c =>
      cases hwrote with
      | other _ _ hne => exact absurd rfl hne
      | plain _ _ hne => exact absurd rfl (hne b)
      | noText => exact ⟨rfl, .noText⟩
  | text b =>
    rcases toNative_string hn with h | ⟨_, h⟩
    · cases h
    · cases h
  | array | noArray => cases hone

/-! ### The slots of a function -/

lemma ne_input_of_isByRef {d : Direction} (h : d.isByRef = true) : d ≠ .input := by
  rintro rfl
  cases h

lemma length_slotParams (f : NativeFunction) : (slotParams f).length = f.arity := by
  rw [slotParams]
  exact f.length_receiver_append none (List.length_map _)

/-- The slot of a parameter is behind the one of the receiver. -/
lemma slotParams_slotOf (f : NativeFunction) (i : Nat) :
    (slotParams f)[slotOf f i]? = f.params[i]?.map some := by
  rw [slotParams, slotOf]
  split
  · exact List.getElem?_map
  · exact List.getElem?_map

lemma exists_slotOf {f : NativeFunction} {j : Nat} {p : BoundParam}
    (h : (slotParams f)[j]? = some (some p)) : ∃ i, j = slotOf f i ∧ f.params[i]? = some p := by
  have hparam : ∀ i : Nat, (f.params.map some)[i]? = some (some p) → f.params[i]? = some p := by
    intro i hi
    rw [List.getElem?_map] at hi
    simpa using hi
  rw [slotParams] at h
  split at h
  · rename_i hhandle
    cases j with
    | zero => simp at h
    | succ i => exact ⟨i, by rw [slotOf, if_pos hhandle], hparam i h⟩
  · rename_i hhandle
    exact ⟨j, by rw [slotOf, if_neg hhandle]; rfl, hparam j h⟩

/-- The slots of a call with the directions in which they travel. -/
lemma getElem?_directed {slots : List Slot} {f : NativeFunction} {j : Nat}
    {x : Slot × Direction} :
    (slots.zip ((slotParams f).map slotDirection))[j]? = some x ↔
      slots[j]? = some x.1 ∧ ∃ q, (slotParams f)[j]? = some q ∧ slotDirection q = x.2 := by
  rw [List.getElem?_zip_eq_some, List.getElem?_map, Option.map_eq_some_iff]

/-! ### The checks before and after a call -/

lemma kind_of_checkKinds {m : BindingModel} (xs : List (Slot × Option BoundParam)) :
    ∀ {i : Nat}, checkKinds m i xs = .ok () → ∀ s p, (s, some p) ∈ xs → p.direction.isByRef = true →
      ∃ kind, nativeKind m p.type = .ok kind ∧ s.kind = kind.code := by
  induction xs with
  | nil => exact fun _ s p hmem => absurd hmem List.not_mem_nil
  | cons x xs ih =>
    obtain ⟨s', p'⟩ := x
    intro i h s p hmem href
    cases p' with
    | none =>
      rw [checkKinds] at h
      rcases List.mem_cons.mp hmem with heq | hmem
      · cases heq
      · exact ih h s p hmem href
    | some p' =>
      rw [checkKinds] at h
      split at h
      · rename_i href'
        split at h
        · cases h
        · rename_i kind hkind
          split at h
          · rename_i hs
            rcases List.mem_cons.mp hmem with heq | hmem
            · cases heq
              exact ⟨kind, hkind, hs⟩
            · exact ih h s p hmem href
          · cases h
      · rename_i hnot
        rcases List.mem_cons.mp hmem with heq | hmem
        · cases heq
          exact absurd href hnot
        · exact ih h s p hmem href

lemma unfit_ne_checkKinds {m : BindingModel} (xs : List (Slot × Option BoundParam)) :
    ∀ {i index kind : Nat} {v : NativeValue}, checkKinds m i xs ≠ .error (.unfit index kind v) := by
  induction xs with
  | nil => exact nofun
  | cons x xs ih =>
    obtain ⟨s, p⟩ := x
    intro i index kind v h
    cases p with
    | none => exact ih h
    | some p =>
      rw [checkKinds] at h
      split at h
      · split at h
        · cases h
        · split at h
          · exact ih h
          · cases h
      · exact ih h

/-- There is a value for each slot, read from it. -/
lemma of_decodeAll (xs : List (Slot × Direction)) :
    ∀ {i : Nat} {values : List NativeValue}, decodeAll i xs = .ok values →
      values.length = xs.length ∧ ∀ (j : Nat) (s : Slot) (d : Direction) (v : NativeValue),
        xs[j]? = some (s, d) → values[j]? = some v → decode s d = .ok v := by
  induction xs with
  | nil =>
    intro i values h
    cases h
    exact ⟨rfl, fun j s d v hx _ => by simp at hx⟩
  | cons x xs ih =>
    obtain ⟨s, d⟩ := x
    intro i values h
    rw [decodeAll] at h
    split at h
    · cases h
    · rename_i v hv
      obtain ⟨rest, hrest, rfl⟩ := map_eq_ok_iff.mp h
      obtain ⟨hlen, hread⟩ := ih hrest
      refine ⟨by rw [List.length_cons, List.length_cons, hlen], ?_⟩
      intro j s' d' v' hx hv'
      cases j with
      | zero =>
        cases hx
        cases hv'
        exact hv
      | succ j => exact hread j s' d' v' hx hv'

lemma unfit_ne_decodeAll (xs : List (Slot × Direction)) :
    ∀ {i index kind : Nat} {v : NativeValue}, decodeAll i xs ≠ .error (.unfit index kind v) := by
  induction xs with
  | nil => exact nofun
  | cons x xs ih =>
    obtain ⟨s, d⟩ := x
    intro i index kind v h
    rw [decodeAll] at h
    split at h
    · cases h
    · exact ih (eq_error_of_map h)

lemma checkFit_eq_ok (xs : List ((Slot × Direction) × NativeValue)) :
    ∀ {i : Nat}, (∀ x ∈ xs, x.1.2.isByRef = true → fitsSlot x.1.1.kind x.2 = true) →
      checkFit i xs = .ok () := by
  induction xs with
  | nil => exact fun _ => rfl
  | cons x xs ih =>
    obtain ⟨⟨s, d⟩, v⟩ := x
    intro i h
    have hhead : (d.isByRef && !fitsSlot s.kind v) = false := by
      cases hd : d.isByRef with
      | false => rfl
      | true => rw [h _ List.mem_cons_self hd]; rfl
    rw [checkFit, if_neg (by simp [hhead])]
    exact ih fun x hx => h x (List.mem_cons_of_mem _ hx)

/-- Only from a slot for text a text buffer is read. -/
lemma readStorage_ne_text {kind : Kind} (h : kind ≠ .string) (storage : Storage)
    (b : TextBuffer) : readStorage kind storage ≠ .text b := by
  cases kind with
  | string => exact absurd rfl h
  | void | array => cases storage <;> exact nofun
  | scalar p => cases storage <;> exact nofun
  | handle =>
    cases storage with
    | text => exact nofun
    | word bits =>
      rw [readStorage, NativeValue.ofRawHandle]
      split
      · exact nofun
      · exact nofun

/-- A slot that was read for a parameter passed by reference points to storage; what was read is a
text buffer exactly if the slot is one for text. -/
lemma exists_storage_of_decode {s : Slot} {d : Direction} {v : NativeValue} {kind : Kind}
    (hd : d.isByRef = true) (hkind : s.kind = kind.code) (hsound : s.isSound = true)
    (h : decode s d = .ok v) :
    ∃ storage, s = ⟨kind.code, .byRef (some storage)⟩ ∧ Storage.isOf kind storage = true ∧
      (kind = .string ↔ ∃ b, v = .text b) := by
  obtain ⟨code, passing⟩ := s
  obtain rfl : code = kind.code := hkind
  rw [Slot.isSound] at hsound
  simp only [Kind.ofCode?_code] at hsound
  rw [decode] at h
  simp only [Kind.ofCode?_code] at h
  cases passing with
  | byValue payload =>
    dsimp only at h
    rw [if_pos hd] at h
    cases h
  | byRef storage =>
    cases storage with
    | none => cases h
    | some storage =>
      refine ⟨storage, rfl, hsound, ?_⟩
      dsimp only at h hsound
      split at h
      · cases h
        cases kind with
        | string => exact ⟨fun _ => ⟨_, rfl⟩, fun _ => rfl⟩
        | void | scalar | handle | array => simp [NativeValue.zero]
      · split at h
        · cases h
        · cases h
          by_cases hstring : kind = .string
          · subst hstring
            cases storage with
            | word => cases hsound
            | text b => exact ⟨fun _ => ⟨_, rfl⟩, fun _ => rfl⟩
          · exact ⟨fun h => absurd h hstring,
              fun ⟨b, hb⟩ => absurd hb (readStorage_ne_text hstring storage b)⟩

end Abi

end Interop
