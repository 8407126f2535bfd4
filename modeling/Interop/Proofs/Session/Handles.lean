/-
# The handles of a session

Calls give out handles, whether they fail or not, and take none back; nor does anything else that
happens to a session.  So in a session that began without handles the table is always one that
there can be, and a handle that native code got stays good for the same object.

Main definition: `Session.run`.
-/
import Interop.Proofs.Marshal.Rooting
import Interop.Proofs.Session.Calls

namespace Interop

open Model Native Managed Marshal

/-- What happens to a session: calls from native code, and what managed code does outside of
calls. -/
inductive Action
  | call (symbol : String) (slots : List NativeValue)
  | define (type : TypePath) (signature : String) (p : Program)
  /-- Leaves arrays, objects and static fields in some other state. -/
  | work (heap : Heap) (statics : Statics)

namespace Session

/-- The session after an action, whether a call succeeds or not. -/
def act (s : Session) : Action → Session
  | .call symbol slots => (s.invoke symbol slots).session
  | .define type signature p => s.define type signature p
  | .work heap statics => { s with heap, statics }

/-- The session after some actions. -/
def run (s : Session) (actions : List Action) : Session := actions.foldl act s

/-- Between two sessions of one model handles were given out, and nothing else happened to the
handles. -/
structure GivesHandles (s s' : Session) : Prop where
  model : s'.model = s.model
  le : s.handles ≤ s'.handles
  reachable : s.handles.Reachable → s'.handles.Reachable

namespace GivesHandles

lemma of_eq {s s' : Session} (hmodel : s'.model = s.model) (h : s'.handles = s.handles) :
    s.GivesHandles s' := by
  refine ⟨hmodel, ?_, ?_⟩
  · rw [h]
  · intro hs
    rwa [h]

lemma trans {s₁ s₂ s₃ : Session} (h : s₁.GivesHandles s₂) (h' : s₂.GivesHandles s₃) :
    s₁.GivesHandles s₃ :=
  ⟨h'.model.trans h.model, le_trans h.le h'.le, fun hs => h'.reachable (h.reachable hs)⟩

end GivesHandles

/-- A call that is finished keeps what its code left, and gives handles to objects of its result and
its arguments. -/
lemma session_finish (s : Session) (c : Call) (result : ManagedValue) (slots : List NativeValue) :
    ∃ t, (s.finish c result slots).session =
        { s with heap := c.heap, statics := c.statics, handles := t } ∧
      ∀ I : HandleTable → Prop,
        (∀ t o, Met c.heap (returned c result :: c.arguments) o → I t → I (t.root o).2) →
          I s.handles → I t := by
  have hreturns := (rooting_toNative s.model c.heap c.function.returns (returned c result)).mono
    (Q := Met c.heap (returned c result :: c.arguments))
    fun o ho => ho.of_subset fun _ hp => List.mem_singleton.mp hp ▸ List.mem_cons_self
  have harguments := (rooting_writeArguments s.model c.heap c.function.params c.arguments).mono
    (Q := Met c.heap (returned c result :: c.arguments))
    fun o ho => ho.of_subset fun _ hp => List.mem_cons_of_mem _ hp
  rw [finish]
  dsimp only
  split
  · rename_i heq
    exact ⟨_, rfl, fun I hI hs => hreturns.keeps_of_eq heq I hI hs⟩
  · rename_i t heq
    have hkeep : ∀ I : HandleTable → Prop, (∀ t o, Met c.heap (returned c result :: c.arguments) o →
        I t → I (t.root o).2) → I s.handles → I t := fun I hI => hreturns.keeps_of_eq heq I hI
    split
    · rename_i heq'
      exact ⟨_, rfl, fun I hI hs => harguments.keeps_of_eq heq' I hI (hkeep I hI hs)⟩
    · rename_i heq'
      exact ⟨_, rfl, fun I hI hs => harguments.keeps_of_eq heq' I hI (hkeep I hI hs)⟩

lemma givesHandles_finish (s : Session) (c : Call) (result : ManagedValue)
    (slots : List NativeValue) : s.GivesHandles (s.finish c result slots).session := by
  obtain ⟨t, hsession, hkeep⟩ := s.session_finish c result slots
  rw [hsession]
  refine ⟨rfl, ?_, ?_⟩
  · exact hkeep (s.handles ≤ ·) (fun t' o _ hle => le_trans hle (t'.le_root o)) le_rfl
  · exact hkeep HandleTable.Reachable fun _ o _ ht => ht.root o

/-- A call gives out handles and takes none back. -/
theorem givesHandles_invoke (s : Session) (symbol : String) (slots : List NativeValue) :
    s.GivesHandles (s.invoke symbol slots).session := by
  rcases s.invoke_cases symbol slots with ⟨_, hinvoke⟩ | ⟨f, _, _, hinvoke⟩
  · rw [hinvoke]
    exact .of_eq rfl rfl
  · rw [hinvoke]
    rcases s.call_eq_cases f slots with ⟨_, hcall⟩ | ⟨_, _, _, hcall⟩ | ⟨c, result, _, hcall⟩
    · rw [hcall]
      exact .of_eq rfl rfl
    · rw [hcall]
      exact .of_eq rfl rfl
    · rw [hcall]
      exact s.givesHandles_finish c result slots

lemma givesHandles_act (s : Session) (action : Action) : s.GivesHandles (s.act action) := by
  cases action with
  | call symbol slots => exact s.givesHandles_invoke symbol slots
  | define type signature p => exact .of_eq rfl rfl
  | work heap statics => exact .of_eq rfl rfl

/-- Whatever happens to a session, no handle is taken back. -/
theorem givesHandles_run (actions : List Action) :
    ∀ s : Session, s.GivesHandles (s.run actions) := by
  induction actions with
  | nil => exact fun s => .of_eq rfl rfl
  | cons action actions ih => exact fun s => (s.givesHandles_act action).trans (ih _)

/-- The handles of a session that began without any. -/
lemma reachable_run (m : BindingModel) (actions : List Action) :
    ((ofModel m).run actions).handles.Reachable :=
  (givesHandles_run actions (ofModel m)).reachable .empty

lemma model_run (m : BindingModel) (actions : List Action) :
    ((ofModel m).run actions).model = m :=
  (givesHandles_run actions (ofModel m)).model

end Session

end Interop
