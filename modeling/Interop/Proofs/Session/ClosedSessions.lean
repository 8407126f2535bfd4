/-
# Closed sessions

In a closed session everything refers to objects that exist: the heap, the static fields and the
table of handles; and the registered code is honest.  A session stays closed whatever calls are
made, whether they succeed or fail, and as long as what is done outside of calls is honest too.
-/
import Interop.Proofs.Managed.Objects
import Interop.Proofs.Session.Arguments
import Interop.Proofs.Session.Handles

namespace Interop

open Model Native Managed Marshal

namespace Session

/-- Everything that a session refers to exists, and its code is honest. -/
structure Closed (s : Session) : Prop where
  handles : s.handles.Reachable
  slots : ∀ o ∈ s.handles.slots, o.index < s.heap.objects.length
  heap : s.heap.Closed
  statics : Statics.Below s.heap.objects.length s.statics
  code : ∀ key p, s.implementations.get? key = some p →
    ∀ n, s.heap.objects.length ≤ n → p.Honest n

lemma closed_ofModel (m : BindingModel) : (ofModel m).Closed := by
  refine ⟨.empty, ?_, Heap.closed_empty, ?_, ?_⟩
  · intro o ho
    cases ho
  · intro key v hv
    cases hv
  · intro key p hp
    cases hp

/-! ### The start of a call -/

/-- An object of a handle exists. -/
lemma Closed.below_of_knows {s : Session} (hs : s.Closed) {n : Nat}
    (hle : s.heap.objects.length ≤ n) {v : ManagedValue} (hv : s.handles.Knows v) : v.Below n :=
  fun o ho => Nat.lt_of_lt_of_le (hs.slots o (hv o ho)) hle

/-- The receiver exists when its call starts, and no object went away. -/
lemma Closed.receiver {s : Session} (hs : s.Closed) {f : NativeFunction}
    {slot : Option NativeValue} {r : Option ObjectRef} {heap : Heap}
    (h : s.receiver f slot = .ok (r, heap)) :
    heap.Closed ∧ s.heap.objects.length ≤ heap.objects.length ∧
      ∀ o, r = some o → o.index < heap.objects.length := by
  rcases receiver_cases h with
    ⟨k, o, _, _, hresolve, rfl, rfl⟩ | ⟨_, _, rfl, rfl⟩ | ⟨_, _, rfl, rfl⟩
  · refine ⟨hs.heap, Nat.le_refl _, ?_⟩
    rintro p ⟨⟩
    exact hs.slots _ (List.mem_of_getElem? (resolve_eq_ok_iff.mp hresolve).1)
  · have hlength := s.heap.length_newObject f.owner
    refine ⟨hs.heap.newObject f.owner, by omega, ?_⟩
    rintro o ⟨⟩
    rw [hlength]
    exact Nat.lt_succ_self _
  · refine ⟨hs.heap, Nat.le_refl _, ?_⟩
    rintro o ⟨⟩

/-- A call of a closed session starts closed, with all the objects that there were. -/
lemma Closed.prepare {s : Session} (hs : s.Closed) {f : NativeFunction}
    {slots : List NativeValue} {c : Call} (h : s.prepare f slots = .ok c) :
    c.Closed ∧ s.heap.objects.length ≤ c.heap.objects.length := by
  obtain ⟨heap, hreceiver, hread, _, hstatics⟩ := exists_of_prepare h
  obtain ⟨hheap, hle, hr⟩ := hs.receiver hreceiver
  -- reading adds arrays of objects that have handles
  obtain ⟨⟨hclosed, hlength⟩, hknown⟩ := readArguments_keeps (I := fun heap' =>
    heap'.Closed ∧ heap'.objects.length = heap.objects.length) (by
      rintro heap' items hitems ⟨hclosed, hlength⟩
      refine ⟨hclosed.newArray fun v hv => ?_, hlength⟩
      exact hs.below_of_knows (hlength.symm ▸ hle) (hitems v hv)) _ hread ⟨hheap, rfl⟩
  have hle' : s.heap.objects.length ≤ c.heap.objects.length := hlength.symm ▸ hle
  refine ⟨⟨hclosed, hlength.symm ▸ hr, fun v hv => hs.below_of_knows hle' (hknown v hv), ?_⟩, hle'⟩
  rw [hstatics]
  exact fun key v hv => (hs.statics key v hv).mono hle'

/-! ### The code of a call -/

/-- What a member without code does is honest. -/
lemma Defaults.leaves {c c' : Call} {result : Except ManagedFailure ManagedValue} (hc : c.Closed)
    (h : Defaults c result c') : Program.Leaves c.heap.objects.length result c' := by
  have hfirst : (c.arguments.head?.getD .null).Below c.heap.objects.length := by
    cases hargs : c.arguments with
    | nil => exact .of_ne (by simp) _
    | cons v vs => exact hc.arguments v (hargs ▸ List.mem_cons_self)
  have hsame : ∀ v, v.Below c.heap.objects.length →
      Program.Leaves c.heap.objects.length (.ok v) c := by
    intro v hv
    refine ⟨hc, Nat.le_refl _, ?_⟩
    rintro w ⟨⟩
    exact hv
  cases h with
  | failure f => exact ⟨hc, Nat.le_refl _, by rintro v ⟨⟩⟩
  | value hv => exact hsame _ (.of_ne hv _)
  | field hv => exact hsame _ (hc.heap.fields _ _ _ hv)
  | static hv => exact hsame _ (hc.statics _ _ hv)
  | setField o name =>
    have hlength := c.heap.length_setField o name (c.arguments.head?.getD .null)
    refine ⟨hc.setField o name hfirst, Nat.le_of_eq hlength.symm, ?_⟩
    rintro w ⟨⟩
    exact .of_ne (by simp) _
  | setStatic name =>
    refine ⟨hc.setStatic _ hfirst, Nat.le_refl _, ?_⟩
    rintro w ⟨⟩
    exact .of_ne (by simp) _

/-- The code of a call leaves it closed. -/
lemma Closed.dispatch {s : Session} (hs : s.Closed) {c c' : Call}
    {result : Except ManagedFailure ManagedValue} (hc : c.Closed)
    (hle : s.heap.objects.length ≤ c.heap.objects.length)
    (h : s.dispatch c = some (result, c')) : Program.Leaves c.heap.objects.length result c' := by
  rw [Session.dispatch] at h
  split at h
  · rename_i p hp
    have hleaves := p.leaves_run c _ rfl hc (hs.code _ p hp _ hle)
    rw [Option.some.inj h] at hleaves
    exact hleaves
  · exact (defaults_of_default? h).leaves hc

/-- Whatever the code of a call does, it leaves all objects of the session in place. -/
lemma Closed.ends {s : Session} (hs : s.Closed) {f : NativeFunction} {slots : List NativeValue}
    {result : Except ManagedFailure ManagedValue} {c : Call} (h : s.Ends f slots result c) :
    Program.Leaves s.heap.objects.length result c := by
  obtain ⟨start, hstart, hend⟩ := h
  obtain ⟨hclosed, hle⟩ := hs.prepare hstart
  have hleaves := hs.dispatch hclosed hle hend
  exact ⟨hleaves.closed, Nat.le_trans hle hleaves.le, hleaves.below⟩

/-! ### The session after an action -/

/-- A session stays closed in another state of its objects, if these are all still there. -/
lemma Closed.work {s : Session} (hs : s.Closed) {heap : Heap} {statics : Statics}
    (hle : s.heap.objects.length ≤ heap.objects.length) (hheap : heap.Closed)
    (hstatics : Statics.Below heap.objects.length statics) : Closed { s with heap, statics } :=
  ⟨hs.handles, fun o ho => Nat.lt_of_lt_of_le (hs.slots o ho) hle, hheap, hstatics,
    fun key p hp n hn => hs.code key p hp n (Nat.le_trans hle hn)⟩

/-- What is converted at the end of a call exists. -/
lemma below_of_met {heap : Heap} (hheap : heap.Closed) {vs : List ManagedValue}
    (hvs : ∀ v ∈ vs, v.Below heap.objects.length) {o : ObjectRef} (h : Met heap vs o) :
    o.index < heap.objects.length := by
  rcases h with h | ⟨r, h⟩
  · exact hvs _ h o rfl
  · exact hheap.items r _ h o rfl

/-- So does what a call returns. -/
lemma below_returned {n : Nat} {result : ManagedValue} {c : Call}
    (h : Program.Leaves n (.ok result) c) : (returned c result).Below c.heap.objects.length := by
  rw [returned]
  split
  · rename_i o _ ho
    rintro p ⟨⟩
    exact h.closed.receiver o ho
  · exact h.below result rfl

lemma Closed.finish {s : Session} (hs : s.Closed) {result : ManagedValue} {c : Call}
    (h : Program.Leaves s.heap.objects.length (.ok result) c) (slots : List NativeValue) :
    (s.finish c result slots).session.Closed := by
  obtain ⟨t, hsession, hkeep⟩ := s.session_finish c result slots
  have hleft := hs.work h.le h.closed.heap h.closed.statics
  have hmet : ∀ o, Met c.heap (returned c result :: c.arguments) o →
      o.index < c.heap.objects.length :=
    fun o ho => below_of_met h.closed.heap
      (List.forall_mem_cons.mpr ⟨below_returned h, h.closed.arguments⟩) ho
  rw [hsession]
  refine ⟨?_, ?_, hleft.heap, hleft.statics, hleft.code⟩
  · exact hkeep HandleTable.Reachable (fun _ o _ ht => ht.root o) hs.handles
  · -- an object that got a handle was there already, or the call met it
    refine hkeep (fun t => ∀ o ∈ t.slots, o.index < c.heap.objects.length) ?_ hleft.slots
    intro t o ho ht p hp
    rcases HandleTable.mem_slots_root hp with hp | rfl
    · exact ht p hp
    · exact hmet p ho

/-- A call leaves a closed session closed, whether it fails or not. -/
lemma Closed.invoke {s : Session} (hs : s.Closed) (symbol : String) (slots : List NativeValue) :
    (s.invoke symbol slots).session.Closed := by
  rcases s.invoke_cases symbol slots with ⟨_, hinvoke⟩ | ⟨f, _, _, hinvoke⟩
  · rw [hinvoke]
    exact hs
  · rw [hinvoke]
    rcases s.call_eq_cases f slots with
      ⟨_, hcall⟩ | ⟨_, c, hends, hcall⟩ | ⟨c, result, hends, hcall⟩
    · rw [hcall]
      exact hs
    · rw [hcall]
      have hleaves := hs.ends hends
      exact hs.work hleaves.le hleaves.closed.heap hleaves.closed.statics
    · rw [hcall]
      exact hs.finish (hs.ends hends) slots

end Session

/-- An action after which all that is referred to exists, and all code is honest.  A call is always
such an action. -/
def Action.Honest (s : Session) : Action → Prop
  | .call _ _ => True
  | .define _ _ p => ∀ n, s.heap.objects.length ≤ n → p.Honest n
  | .work heap statics =>
    s.heap.objects.length ≤ heap.objects.length ∧ heap.Closed ∧
      Statics.Below heap.objects.length statics

namespace Session

/-- All actions of a run are honest. -/
def HonestRun : Session → List Action → Prop
  | _, [] => True
  | s, action :: actions => action.Honest s ∧ (s.act action).HonestRun actions

lemma Closed.act {s : Session} (hs : s.Closed) {action : Action} (h : action.Honest s) :
    (s.act action).Closed := by
  cases action with
  | call symbol slots => exact hs.invoke symbol slots
  | define type signature p =>
    refine ⟨hs.handles, hs.slots, hs.heap, hs.statics, ?_⟩
    intro key q hq
    rw [Session.act, define, Table.get?_set] at hq
    split at hq
    · cases hq
      exact h
    · exact hs.code key q hq
  | work heap statics => exact hs.work h.1 h.2.1 h.2.2

/-- A session stays closed in an honest run. -/
theorem Closed.run (actions : List Action) :
    ∀ {s : Session}, s.Closed → s.HonestRun actions → (s.run actions).Closed := by
  induction actions with
  | nil => exact fun hs _ => hs
  | cons action actions ih => exact fun hs h => ih (hs.act h.1) h.2

end Session

end Interop
