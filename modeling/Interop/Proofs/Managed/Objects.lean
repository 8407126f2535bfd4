/-
# References to objects that exist

Nothing in a heap refers to an object that was not made yet (`Heap.Closed`).  Code cannot make up a
reference: the objects that it hands on are those that it got from the state of its call and those
that it made (`Program.Honest`).  Such code keeps heaps closed, and no object ever goes away.
-/
import Interop.Managed.Program
import Mathlib.Tactic.Common

namespace Interop.Managed

/-- A value that is no object, or one of the first `n` that were made. -/
def ManagedValue.Below (n : Nat) (v : ManagedValue) : Prop := ∀ o, v = .object o → o.index < n

lemma ManagedValue.Below.mono {n n' : Nat} {v : ManagedValue} (h : v.Below n) (hle : n ≤ n') :
    v.Below n' :=
  fun o ho => Nat.lt_of_lt_of_le (h o ho) hle

/-- A value that is no object exists. -/
lemma ManagedValue.Below.of_ne {v : ManagedValue} (h : ∀ o, v ≠ .object o) (n : Nat) : v.Below n :=
  fun o ho => absurd ho (h o)

namespace Heap

/-- All objects in arrays and fields exist. -/
structure Closed (h : Heap) : Prop where
  items : ∀ r, ∀ v ∈ h.items r, v.Below h.objects.length
  fields : ∀ o name v, h.field? o name = some v → v.Below h.objects.length

lemma closed_empty : empty.Closed := by
  constructor
  · intro r v hv
    cases hv
  · intro o name v hv
    cases hv

variable {h : Heap}

lemma length_newObject (h : Heap) (type : Model.TypePath) :
    (h.newObject type).2.objects.length = h.objects.length + 1 := by
  rw [newObject, List.length_append, List.length_singleton]

lemma length_setField (h : Heap) (o : ObjectRef) (name : String) (v : ManagedValue) :
    (h.setField o name v).objects.length = h.objects.length := List.length_set

lemma Closed.newObject (hc : h.Closed) (type : Model.TypePath) : (h.newObject type).2.Closed := by
  have hle : h.objects.length ≤ (h.newObject type).2.objects.length := by
    rw [length_newObject]
    exact Nat.le_succ _
  refine ⟨fun r v hv => (hc.items r v hv).mono hle, ?_⟩
  intro o name v hv
  rw [field?, Heap.fields, Heap.newObject, List.getD_eq_getElem?_getD, List.getElem?_append] at hv
  split at hv
  · rw [← List.getD_eq_getElem?_getD] at hv
    exact (hc.fields o name v hv).mono hle
  · -- a new object has no fields, and there is none behind it
    rw [List.getElem?_singleton] at hv
    split at hv <;> cases hv

lemma Closed.newArray (hc : h.Closed) {items : List ManagedValue}
    (hitems : ∀ v ∈ items, v.Below h.objects.length) : (h.newArray items).2.Closed := by
  refine ⟨?_, hc.fields⟩
  intro r v hv
  rw [Heap.items, Heap.newArray, List.getD_eq_getElem?_getD, List.getElem?_append] at hv
  split at hv
  · rw [← List.getD_eq_getElem?_getD] at hv
    exact hc.items r v hv
  · rw [List.getElem?_singleton] at hv
    split at hv
    · exact hitems v hv
    · cases hv

lemma Closed.setItem (hc : h.Closed) (a : ArrayRef) (i : Nat) {v : ManagedValue}
    (hv : v.Below h.objects.length) : (h.setItem a i v).Closed := by
  refine ⟨?_, hc.fields⟩
  intro r w hw
  rw [Heap.items, Heap.setItem, List.getD_eq_getElem?_getD, List.getElem?_set] at hw
  split at hw
  · split at hw
    · rcases List.mem_or_eq_of_mem_set hw with hw | rfl
      · exact hc.items a w hw
      · exact hv
    · cases hw
  · rw [← List.getD_eq_getElem?_getD] at hw
    exact hc.items r w hw

lemma Closed.setField (hc : h.Closed) (o : ObjectRef) (name : String) {v : ManagedValue}
    (hv : v.Below h.objects.length) : (h.setField o name v).Closed := by
  have hlength := h.length_setField o name v
  refine ⟨fun r w hw => hlength ▸ hc.items r w hw, ?_⟩
  intro p name' w hw
  rw [hlength]
  rw [field?, Heap.fields, Heap.setField, List.getD_eq_getElem?_getD, List.getElem?_set] at hw
  split at hw
  · split at hw
    · rw [Option.getD_some, Table.get?_set] at hw
      split at hw
      · cases hw
        exact hv
      · exact hc.fields o name' w hw
    · cases hw
  · rw [← List.getD_eq_getElem?_getD] at hw
    exact hc.fields p name' w hw

end Heap

/-- All objects in static fields are among the first `n`. -/
def Statics.Below (n : Nat) (statics : Statics) : Prop :=
  ∀ key v, statics.get? key = some v → v.Below n

/-- All objects that the state of a call refers to exist. -/
structure Call.Closed (c : Call) : Prop where
  heap : c.heap.Closed
  receiver : ∀ o, c.receiver = some o → o.index < c.heap.objects.length
  arguments : ∀ v ∈ c.arguments, v.Below c.heap.objects.length
  statics : Statics.Below c.heap.objects.length c.statics

namespace Call.Closed

variable {c : Call}

/-- A call stays closed when a field is set to a value that exists. -/
lemma setField (hc : c.Closed) (o : ObjectRef) (name : String) {v : ManagedValue}
    (hv : v.Below c.heap.objects.length) :
    Closed { c with heap := c.heap.setField o name v } := by
  have hlength := c.heap.length_setField o name v
  exact ⟨hc.heap.setField o name hv, hlength ▸ hc.receiver, hlength ▸ hc.arguments,
    hlength ▸ hc.statics⟩

/-- A call stays closed when a static field is set to a value that exists. -/
lemma setStatic (hc : c.Closed) (key : Model.TypePath × String) {v : ManagedValue}
    (hv : v.Below c.heap.objects.length) : Closed { c with statics := c.statics.set key v } := by
  refine ⟨hc.heap, hc.receiver, hc.arguments, ?_⟩
  intro key' w hw
  rw [Table.get?_set] at hw
  split at hw
  · cases hw
    exact hv
  · exact hc.statics key' w hw

end Call.Closed

namespace Program

/-- Code that starts when there are `n` objects and hands on none but those, those that it sees in
the state of its call, and those that it makes. -/
def Honest : Program → Nat → Prop
  | .done result, n => ∀ v, result = .ok v → v.Below n
  | .observe next, n => ∀ c : Call, c.heap.objects.length = n → c.Closed → (next c).Honest n
  | .setArgument _ v next, n => v.Below n ∧ next.Honest n
  | .setStatic _ v next, n => v.Below n ∧ next.Honest n
  | .setField _ _ v next, n => v.Below n ∧ next.Honest n
  | .setItem _ _ v next, n => v.Below n ∧ next.Honest n
  | .newObject type next, n =>
    ∀ h : Heap, h.objects.length = n → (next (h.newObject type).1).Honest (n + 1)
  | .newArray items next, n => (∀ v ∈ items, v.Below n) ∧ ∀ a, (next a).Honest n

/-- What code leaves behind that is honest. -/
structure Leaves (n : Nat) (result : Except ManagedFailure ManagedValue) (c : Call) : Prop where
  closed : c.Closed
  le : n ≤ c.heap.objects.length
  below : ∀ v, result = .ok v → v.Below c.heap.objects.length

/-- Honest code leaves a call closed, and all objects in place. -/
lemma leaves_run (p : Program) :
    ∀ (c : Call) (n : Nat), c.heap.objects.length = n → c.Closed → p.Honest n →
      Leaves n (p.run c).1 (p.run c).2 := by
  induction p with
  | done result =>
    intro c n hn hc hp
    exact ⟨hc, Nat.le_of_eq hn.symm, hn ▸ hp⟩
  | observe next ih => exact fun c n hn hc hp => ih c c n hn hc (hp c hn hc)
  | setArgument i v next ih =>
    intro c n hn hc hp
    rw [run]
    split
    · refine ih _ n hn ⟨hc.heap, hc.receiver, ?_, hc.statics⟩ hp.2
      intro w hw
      rcases List.mem_or_eq_of_mem_set hw with hw | rfl
      · exact hc.arguments w hw
      · exact hn ▸ hp.1
    · exact ⟨hc, Nat.le_of_eq hn.symm, fun w hw => by cases hw⟩
  | setStatic name v next ih =>
    intro c n hn hc hp
    exact ih _ n hn (hc.setStatic (c.function.owner, name) (hn ▸ hp.1)) hp.2
  | setField o name v next ih =>
    intro c n hn hc hp
    have hlength := c.heap.length_setField o name v
    exact ih _ n (hlength.trans hn) (hc.setField o name (hn ▸ hp.1)) hp.2
  | setItem a i v next ih =>
    intro c n hn hc hp
    exact ih _ n hn ⟨hc.heap.setItem a i (hn ▸ hp.1), hc.receiver, hc.arguments, hc.statics⟩ hp.2
  | newObject type next ih =>
    intro c n hn hc hp
    have hlength := c.heap.length_newObject type
    have hle : c.heap.objects.length ≤ (c.heap.newObject type).2.objects.length := by
      rw [hlength]
      exact Nat.le_succ _
    have hleaves := ih _ { c with heap := (c.heap.newObject type).2 } (n + 1) (by rw [hlength, hn])
      ⟨hc.heap.newObject type, fun o ho => Nat.lt_of_lt_of_le (hc.receiver o ho) hle,
        fun v hv => (hc.arguments v hv).mono hle, fun key v hv => (hc.statics key v hv).mono hle⟩
      (hp c.heap hn)
    exact ⟨hleaves.closed, Nat.le_of_succ_le hleaves.le, hleaves.below⟩
  | newArray items next ih =>
    intro c n hn hc hp
    exact ih _ _ n hn ⟨hc.heap.newArray (hn ▸ hp.1), hc.receiver, hc.arguments, hc.statics⟩
      (hp.2 _)

end Program

end Interop.Managed
