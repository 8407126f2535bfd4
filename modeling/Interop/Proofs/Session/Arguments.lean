/-
# How the arguments of a call are read

The slot of a parameter is read as a value of its type, in the order of the parameters; an out
parameter is not read and begins with the default value.  Reading adds arrays to the heap and does
nothing else to it, and the objects in what was read are those of handles.
-/
import Interop.Proofs.Marshal.Success
import Interop.Proofs.Session.AllOrNothing

namespace Interop

open Model Native Managed Marshal

/-- A value that is no object, or the object of some handle. -/
def Managed.HandleTable.Knows (t : HandleTable) (v : ManagedValue) : Prop :=
  ∀ o, v = .object o → o ∈ t.slots

namespace Marshal

variable {m : BindingModel} {t : HandleTable}

/-- What holds of a heap and is not lost when an array of known values is added, is not lost by
reading elements of which that is so. -/
lemma readAll_keeps {I : Heap → Prop}
    {read : Heap → NativeValue → Except ConversionFault (ManagedValue × Heap)}
    (hread : ∀ {heap v w heap'}, read heap v = .ok (w, heap') → I heap → I heap' ∧ t.Knows w)
    (vs : List NativeValue) :
    ∀ {heap heap' : Heap} {ws : List ManagedValue}, readAll read heap vs = .ok (ws, heap') →
      I heap → I heap' ∧ ∀ w ∈ ws, t.Knows w := by
  induction vs with
  | nil =>
    intro heap heap' ws h hheap
    cases h
    exact ⟨hheap, by simp⟩
  | cons v vs ih =>
    intro heap heap' ws h hheap
    rw [readAll] at h
    split at h
    · cases h
    · rename_i w heap₁ hv
      split at h
      · cases h
      · rename_i ws' heap₂ hvs
        cases h
        obtain ⟨hheap₁, hw⟩ := hread hv hheap
        obtain ⟨hheap', hws⟩ := ih hvs hheap₁
        exact ⟨hheap', List.forall_mem_cons.mpr ⟨hw, hws⟩⟩

/-- What holds of a heap and is not lost when an array of known values is added, is not lost by
reading a value; and the value is known. -/
lemma toManaged_keeps {I : Heap → Prop}
    (hI : ∀ heap items, (∀ v ∈ items, t.Knows v) → I heap → I (heap.newArray items).2)
    (type : ManagedType) :
    ∀ {heap heap' : Heap} {v : NativeValue} {w : ManagedValue},
      toManaged m t type heap v = .ok (w, heap') → I heap → I heap' ∧ t.Knows w := by
  induction type with
  | array element ih =>
    intro heap heap' v w h hheap
    cases toManaged_eq_ok_iff.mp h with
    | noArray => exact ⟨hheap, by intro o ho; cases ho⟩
    | array _ hread =>
      obtain ⟨hheap₁, hitems⟩ := readAll_keeps ih _ hread hheap
      exact ⟨hI _ _ hitems hheap₁, by intro o ho; cases ho⟩
  | object path =>
    intro heap heap' v w h hheap
    cases toManaged_eq_ok_iff.mp h with
    | noObject => exact ⟨hheap, by intro o ho; cases ho⟩
    | object _ hres =>
      refine ⟨hheap, ?_⟩
      rintro o ⟨⟩
      exact List.mem_of_getElem? hres
  | _ =>
    intro heap heap' v w h hheap
    cases toManaged_eq_ok_iff.mp h <;> exact ⟨hheap, by intro o ho; cases ho⟩

end Marshal

namespace Session

variable {m : BindingModel} {t : HandleTable}

/-- How an argument comes about, and the heap that is left: an out parameter begins with the default
value of its type, and any other is read. -/
inductive ReadsArgument (m : BindingModel) (t : HandleTable) (p : BoundParam) (slot : NativeValue)
    (heap : Heap) : ManagedValue → Heap → Prop
  | out (h : p.direction = .out) : ReadsArgument m t p slot heap (defaultValue m p.type) heap
  | read {w : ManagedValue} {heap' : Heap} (h : p.direction ≠ .out)
    (hread : toManaged m t p.type heap slot = .ok (w, heap')) :
    ReadsArgument m t p slot heap w heap'

/-- The first argument cannot be read, or it is read and then the others are. -/
lemma readArguments_cons (m : BindingModel) (t : HandleTable) (p : BoundParam) (slot : NativeValue)
    (slots : List (BoundParam × NativeValue)) (heap : Heap) :
    (∃ fault, p.direction ≠ .out ∧ toManaged m t p.type heap slot = .error fault ∧
      readArguments m t heap ((p, slot) :: slots) = .error (p.name, fault)) ∨
    ∃ w heap₁, ReadsArgument m t p slot heap w heap₁ ∧
      readArguments m t heap ((p, slot) :: slots) =
        (readArguments m t heap₁ slots).map fun r => (w :: r.1, r.2) := by
  cases hd : p.direction with
  | out =>
    refine Or.inr ⟨_, _, .out hd, ?_⟩
    simp only [readArguments, hd]
    cases readArguments m t heap slots <;> rfl
  | input | ref =>
    cases hread : toManaged m t p.type heap slot with
    | error fault =>
      refine Or.inl ⟨fault, by simp, rfl, ?_⟩
      simp only [readArguments, hd, hread]
    | ok r =>
      refine Or.inr ⟨r.1, r.2, .read (by rw [hd]; simp) hread, ?_⟩
      simp only [readArguments, hd, hread]
      cases readArguments m t r.2 slots <;> rfl

/-- What holds of a heap and is not lost when an array of known values is added, is not lost by
reading the arguments; and these are known. -/
lemma readArguments_keeps {I : Heap → Prop}
    (hI : ∀ heap items, (∀ v ∈ items, t.Knows v) → I heap → I (heap.newArray items).2)
    (slots : List (BoundParam × NativeValue)) :
    ∀ {heap heap' : Heap} {ws : List ManagedValue},
      readArguments m t heap slots = .ok (ws, heap') → I heap →
        I heap' ∧ ∀ w ∈ ws, t.Knows w := by
  induction slots with
  | nil =>
    intro heap heap' ws h hheap
    cases h
    exact ⟨hheap, by simp⟩
  | cons slot slots ih =>
    intro heap heap' ws h hheap
    rcases readArguments_cons m t slot.1 slot.2 slots heap with ⟨_, _, _, heq⟩ | ⟨w, heap₁, hw, heq⟩
    · rw [heq] at h
      cases h
    · rw [heq] at h
      obtain ⟨r, hrest, hr⟩ := map_eq_ok_iff.mp h
      cases hr
      have hfirst : I heap₁ ∧ t.Knows w := by
        cases hw with
        | out => exact ⟨hheap, fun o ho => absurd ho (defaultValue_ne_object m _ o)⟩
        | read _ hread => exact toManaged_keeps hI _ hread hheap
      obtain ⟨hheap', hws⟩ := ih hrest hfirst.1
      exact ⟨hheap', List.forall_mem_cons.mpr ⟨hfirst.2, hws⟩⟩

lemma arrays_grow_of_readArguments {slots : List (BoundParam × NativeValue)} {heap heap' : Heap}
    {ws : List ManagedValue} (h : readArguments m t heap slots = .ok (ws, heap')) :
    heap.arrays <+: heap'.arrays :=
  (readArguments_keeps (I := fun heap' => heap.arrays <+: heap'.arrays)
    (fun _ _ _ hgrow => hgrow.trans (List.prefix_append _ _)) slots h (List.prefix_refl _)).1

/-- There is an argument for each slot; after it came about, arrays may have been added. -/
lemma exists_readsArgument (slots : List (BoundParam × NativeValue)) :
    ∀ {heap heap' : Heap} {ws : List ManagedValue},
      readArguments m t heap slots = .ok (ws, heap') →
        ∀ (i : Nat) (p : BoundParam) (slot : NativeValue), slots[i]? = some (p, slot) →
          ∃ w heap₁ heap₂, ws[i]? = some w ∧ ReadsArgument m t p slot heap₁ w heap₂ ∧
            heap₂.arrays <+: heap'.arrays := by
  induction slots with
  | nil =>
    intro heap heap' ws _ i p slot hi
    cases hi
  | cons first slots ih =>
    intro heap heap' ws h i p slot hi
    rcases readArguments_cons m t first.1 first.2 slots heap with
      ⟨_, _, _, heq⟩ | ⟨w, heap₁, hw, heq⟩
    · rw [heq] at h
      cases h
    · rw [heq] at h
      obtain ⟨r, hrest, hr⟩ := map_eq_ok_iff.mp h
      cases hr
      cases i with
      | zero =>
        cases hi
        exact ⟨w, heap, heap₁, rfl, hw, arrays_grow_of_readArguments hrest⟩
      | succ i => exact ih hrest i p slot hi

/-- If the arguments cannot be read, then one of them cannot. -/
lemma exists_of_readArguments_error (slots : List (BoundParam × NativeValue)) :
    ∀ {heap : Heap} {name : String} {fault : ConversionFault},
      readArguments m t heap slots = .error (name, fault) →
        ∃ (i : Nat) (p : BoundParam) (slot : NativeValue) (heap : Heap),
          slots[i]? = some (p, slot) ∧ p.name = name ∧ p.direction ≠ .out ∧
          toManaged m t p.type heap slot = .error fault := by
  induction slots with
  | nil =>
    intro heap name fault h
    cases h
  | cons first slots ih =>
    intro heap name fault h
    rcases readArguments_cons m t first.1 first.2 slots heap with
      ⟨fault', hnot, hfirst, heq⟩ | ⟨w, heap₁, _, heq⟩
    · rw [heq] at h
      cases h
      exact ⟨0, first.1, first.2, heap, rfl, rfl, hnot, hfirst⟩
    · rw [heq] at h
      obtain ⟨i, p, slot, heap, hi, hfailed⟩ := ih (eq_error_of_map h)
      exact ⟨i + 1, p, slot, heap, hi, hfailed⟩

/-! ### The start of a call -/

/-- The parameters and the slots that are read for them. -/
lemma getElem?_zip_params {f : NativeFunction} {slots : List NativeValue} {i : Nat}
    {p : BoundParam} {slot : NativeValue} :
    (f.params.zip (if f.takesHandle then slots.tail else slots))[i]? = some (p, slot) ↔
      f.params[i]? = some p ∧ slots[slotOf f i]? = some slot := by
  rw [List.getElem?_zip_eq_some, slotOf]
  split
  · rw [List.getElem?_tail]
  · rfl

/-- The receiver of a call: the object of the handle in the first slot, a new object for a
constructor, or none. -/
lemma receiver_cases {s : Session} {f : NativeFunction} {slot : Option NativeValue}
    {r : Option ObjectRef} {heap : Heap} (h : s.receiver f slot = .ok (r, heap)) :
    (∃ k o, f.takesHandle = true ∧ slot = some (.handle k) ∧
      resolve s.model s.handles k f.owner = .ok o ∧ r = some o ∧ heap = s.heap) ∨
    (f.takesHandle = false ∧ f.kind = .constructor ∧
      r = some (s.heap.newObject f.owner).1 ∧ heap = (s.heap.newObject f.owner).2) ∨
    (f.takesHandle = false ∧ f.kind ≠ .constructor ∧ r = none ∧ heap = s.heap) := by
  rw [receiver] at h
  split at h
  · rename_i hhandle
    split at h
    · rename_i k hslot
      obtain ⟨o, hresolve, heq⟩ := map_eq_ok_iff.mp h
      cases heq
      refine Or.inl ⟨k, o, hhandle, ?_, hresolve, rfl, rfl⟩
      cases slot with
      | none => cases hslot
      | some v => exact congrArg some hslot
    · cases h
    · cases h
  · rename_i hhandle
    have hnot : f.takesHandle = false := by simpa using hhandle
    split at h
    · rename_i hkind
      cases h
      exact Or.inr (Or.inl ⟨hnot, hkind, rfl, rfl⟩)
    · rename_i hkind
      cases h
      exact Or.inr (Or.inr ⟨hnot, hkind, rfl, rfl⟩)

/-- A call starts with its receiver and with the arguments that were read after it. -/
lemma exists_of_prepare {s : Session} {f : NativeFunction} {slots : List NativeValue} {c : Call}
    (h : s.prepare f slots = .ok c) :
    ∃ heap, s.receiver f slots.head? = .ok (c.receiver, heap) ∧
      readArguments s.model s.handles heap
        (f.params.zip (if f.takesHandle then slots.tail else slots)) = .ok (c.arguments, c.heap) ∧
      c.function = f ∧ c.statics = s.statics := by
  rw [prepare] at h
  split at h
  · cases h
  · rename_i receiver heap hreceiver
    dsimp only at h
    split at h
    · cases h
    · rename_i arguments heap' hread
      cases h
      exact ⟨heap, hreceiver, hread, rfl, rfl⟩

/-- A constructor starts with a new object of its owner. -/
lemma receiver_of_prepare {s : Session} {f : NativeFunction} {slots : List NativeValue} {c : Call}
    (hkind : f.kind = .constructor) (h : s.prepare f slots = .ok c) :
    c.receiver = some (s.heap.newObject f.owner).1 := by
  obtain ⟨heap, hreceiver, _⟩ := exists_of_prepare h
  rcases receiver_cases hreceiver with ⟨_, _, hhandle, _⟩ | ⟨_, _, hr, _⟩ | ⟨_, hnot, _⟩
  · simp [NativeFunction.takesHandle, hkind] at hhandle
  · exact hr
  · exact absurd hkind hnot

/-- A call that does not start has a receiver or an argument that cannot be read. -/
lemma exists_of_prepare_error {s : Session} {f : NativeFunction} {slots : List NativeValue}
    {e : CallError} (h : s.prepare f slots = .error e) :
    (∃ fault, s.receiver f slots.head? = .error fault ∧
      e = .conversion f.symbol "this" fault) ∨
    ∃ i p slot heap fault, f.params[i]? = some p ∧ slots[slotOf f i]? = some slot ∧
      p.direction ≠ .out ∧ toManaged s.model s.handles p.type heap slot = .error fault ∧
      e = .conversion f.symbol p.name fault := by
  rw [prepare] at h
  split at h
  · rename_i fault hreceiver
    cases h
    exact Or.inl ⟨fault, hreceiver, rfl⟩
  · dsimp only at h
    split at h
    · rename_i name fault hread
      cases h
      obtain ⟨i, p, slot, heap, hi, rfl, hnot, hfailed⟩ := exists_of_readArguments_error _ hread
      obtain ⟨hp, hslot⟩ := getElem?_zip_params.mp hi
      exact Or.inr ⟨i, p, slot, heap, fault, hp, hslot, hnot, hfailed, rfl⟩
    · cases h

end Session

end Interop
