/-
# What a session writes to

A call writes to what the code of its member writes to; a setter without code writes to the place
where its property is kept, and no other member without code writes to anything.  A call that does
not come so far as to run code writes to nothing.  What none of the actions of a run writes to is
the same after the run (`keeps_run`).
-/
import Interop.Proofs.Managed.Writes
import Interop.Proofs.Session.Arguments
import Interop.Proofs.Session.Handles

namespace Interop

open Model Native Managed Marshal

namespace Session

/-- The place of a property without code: a field of the receiver, or else a static field of the
class. -/
def propertyPlace (c : Call) (property : String) : Place :=
  match c.receiver with
  | some o => .field o.index property
  | none => .static c.function.owner property

/-- What the code of a call writes to, or its default behaviour. -/
def writesOf (s : Session) (c : Call) : List Place :=
  match s.implementation? c.function with
  | some p => p.writes c
  | none =>
    match c.function.kind with
    | .setter property => [propertyPlace c property]
    | _ => []

/-- What a call from native code writes to. -/
def callWrites (s : Session) (symbol : String) (slots : List NativeValue) : List Place :=
  match s.model.function? symbol with
  | none => []
  | some f =>
    if slots.length = f.arity then
      match s.prepare f slots with
      | .error _ => []
      | .ok c => s.writesOf c
    else []

/-! ### Calls -/

variable {place : Place}

/-- The start of a call changes nothing that there was. -/
lemma keeps_prepare {s : Session} {f : NativeFunction} {slots : List NativeValue} {c : Call}
    (h : s.prepare f slots = .ok c) : place.Keeps s.heap s.statics c.heap c.statics := by
  obtain ⟨heap, hreceiver, hread, _, hstatics⟩ := exists_of_prepare h
  rw [hstatics]
  have hstart : place.Keeps s.heap s.statics heap s.statics := by
    rcases receiver_cases hreceiver with
      ⟨_, _, _, _, _, _, rfl⟩ | ⟨_, _, _, rfl⟩ | ⟨_, _, _, rfl⟩
    · exact .refl ..
    · exact .newObject ..
    · exact .refl ..
  exact (readArguments_keeps (I := fun heap' => place.Keeps s.heap s.statics heap' s.statics)
    (fun heap items _ hheap => hheap.trans (.newArray ..)) _ hread hstart).1

/-- A member without code changes nothing but the place of the property that it sets. -/
lemma keeps_default? {m : BindingModel} {c c' : Call} {result : Except ManagedFailure ManagedValue}
    (h : default? m c = some (result, c'))
    (hplace : ∀ property, c.function.kind = .setter property → place ≠ propertyPlace c property) :
    place.Keeps c.heap c.statics c'.heap c'.statics := by
  rw [default?] at h
  dsimp only at h
  split at h
  · cases h
    exact .refl ..
  · split at h
    · cases h
      exact .refl ..
    · split at h <;> cases h <;> exact .refl ..
  · rename_i property hkind
    have hne := hplace property hkind
    rw [propertyPlace] at hne
    split at h
    · rename_i o hreceiver
      rw [hreceiver] at hne
      cases h
      exact .setField hne _
    · rename_i hreceiver
      rw [hreceiver] at hne
      split at h
      · cases h
        exact .setStatic hne _
      · cases h
        exact .refl ..
  · split at h
    · cases h
      exact .refl ..
    · cases h

lemma keeps_dispatch {s : Session} {c c' : Call} {result : Except ManagedFailure ManagedValue}
    (h : s.dispatch c = some (result, c')) (hplace : place ∉ s.writesOf c) :
    place.Keeps c.heap c.statics c'.heap c'.statics := by
  rw [dispatch] at h
  rw [writesOf] at hplace
  split at h
  · rename_i p hp
    rw [hp] at hplace
    have hkeeps := p.keeps_run c hplace
    rw [Option.some.inj h] at hkeeps
    exact hkeeps
  · rename_i hnone
    rw [hnone] at hplace
    refine keeps_default? h fun property hkind => ?_
    simp only [hkind] at hplace
    exact fun heq => hplace (List.mem_singleton.mpr heq)

/-- A call changes nothing that it does not write to, whether it fails or not. -/
lemma keeps_invoke {s : Session} {symbol : String} {slots : List NativeValue}
    (hplace : place ∉ s.callWrites symbol slots) :
    place.Keeps s.heap s.statics (s.invoke symbol slots).session.heap
      (s.invoke symbol slots).session.statics := by
  rcases s.invoke_cases symbol slots with ⟨_, hinvoke⟩ | ⟨f, hf, harity, hinvoke⟩
  · rw [hinvoke]
    exact .refl ..
  · rw [hinvoke]
    have hends : ∀ {result c}, s.Ends f slots result c →
        place.Keeps s.heap s.statics c.heap c.statics := by
      rintro result c ⟨start, hstart, hend⟩
      simp only [callWrites, hf, if_pos harity, hstart] at hplace
      exact (keeps_prepare hstart).trans (keeps_dispatch hend hplace)
    rcases s.call_eq_cases f slots with ⟨_, hcall⟩ | ⟨_, c, hend, hcall⟩ | ⟨c, result, hend, hcall⟩
    · rw [hcall]
      exact .refl ..
    · rw [hcall]
      exact hends hend
    · obtain ⟨t, hsession, _⟩ := s.session_finish c result slots
      rw [hcall, hsession]
      exact hends hend

end Session

/-! ### Runs -/

/-- An action that does not write to a place.  What is done outside of calls does not have to be
known step by step. -/
def Action.Spares (place : Place) (s : Session) : Action → Prop
  | .call symbol slots => place ∉ s.callWrites symbol slots
  | .define _ _ _ => True
  | .work heap statics => place.Keeps s.heap s.statics heap statics

namespace Session

/-- None of the actions of a run writes to a place. -/
def RunSpares (place : Place) : Session → List Action → Prop
  | _, [] => True
  | s, action :: actions => action.Spares place s ∧ (s.act action).RunSpares place actions

variable {place : Place}

lemma keeps_act {s : Session} {action : Action} (h : action.Spares place s) :
    place.Keeps s.heap s.statics (s.act action).heap (s.act action).statics := by
  cases action with
  | call symbol slots => exact keeps_invoke h
  | define type signature p => exact .refl ..
  | work heap statics => exact h

/-- What a run does not write to is the same after it. -/
theorem keeps_run (actions : List Action) :
    ∀ {s : Session}, s.RunSpares place actions →
      place.Keeps s.heap s.statics (s.run actions).heap (s.run actions).statics := by
  induction actions with
  | nil => exact fun _ => .refl ..
  | cons action actions ih => exact fun h => (keeps_act h.1).trans (ih h.2)

end Session

end Interop
