/-
# Handles of calls that failed

A call gives handles to the objects that it hands out while it converts them.  If its code returned
but a later conversion fails, then the objects that had their turn before keep the handles, although
native code never gets these; this is the only way in which a failed call changes the handles.  So
in the table stand the objects that were delivered, and those that a call left there that failed
on its way back.

Main result: `handles_of_failed_calls`.
-/
import Interop.Managed.Script
import Interop.Model.Binding
import Interop.Proofs.Marshal.HandedOut
import Interop.Proofs.Session.DeliveredHandles
import Interop.Source.Parser

namespace Interop

open Model Native Managed Marshal

namespace Session

/-- The objects that a call hands out whose code returned: those in what it returns, and then those
in the arguments passed by reference. -/
def outgoing (c : Call) (result : ManagedValue) : List ObjectRef :=
  objectsOf c.heap c.function.returns (returned c result) ++
    objectsOfArguments c.heap c.function.params c.arguments

/-- A call fails because what it returns, or an argument passed by reference, has no native form. -/
def FailsGoingBack (f : NativeFunction) (e : CallError) : Prop :=
  ∃ name fault, e = .conversion f.symbol name fault ∧
    (name = "return" ∨ ∃ p ∈ f.params, p.name = name ∧ p.direction ≠ .input)

/-! ### The end of a call -/

lemma exists_param_of_writeArguments_error {m : BindingModel} {heap : Heap} {ps : List BoundParam}
    {t t' : HandleTable} {vs : List ManagedValue} {name : String} {fault : ConversionFault}
    (h : writeArguments m heap t ps vs = (.error (name, fault), t')) :
    ∃ p ∈ ps, p.name = name ∧ p.direction ≠ .input := by
  obtain ⟨i, p, _, _, hp, hname, href, _⟩ := exists_of_writeArguments_error ps h
  refine ⟨p, List.mem_of_getElem? hp, hname, ?_⟩
  intro hinput
  rw [hinput] at href
  cases href

/-- A call that was finished gave handles to all objects that it hands out, or it failed then and
gave handles to some first ones of them. -/
lemma handles_finish (s : Session) (c : Call) (result : ManagedValue) (slots : List NativeValue) :
    (∀ n, (s.finish c result slots).result = .ok n →
      (s.finish c result slots).session.handles = s.handles.rootAll (outgoing c result)) ∧
    ∀ e, (s.finish c result slots).result = .error e → FailsGoingBack c.function e ∧
      ∃ done, done <+: outgoing c result ∧
        (s.finish c result slots).session.handles = s.handles.rootAll done := by
  have hreturns := handsOut_toNative s.model c.heap c.function.returns (returned c result)
  have harguments := handsOut_writeArguments s.model c.heap c.function.params c.arguments
  rw [finish]
  dsimp only
  split
  · rename_i fault t heq
    refine ⟨fun n hn => (by cases hn), ?_⟩
    rintro e ⟨⟩
    obtain ⟨done, hdone, hhandles⟩ := hreturns.error s.handles fault (by rw [heq])
    rw [heq] at hhandles
    exact ⟨⟨_, fault, rfl, Or.inl rfl⟩, done, hdone.trans (List.prefix_append _ _), hhandles⟩
  · rename_i n t heq
    have hfirst := hreturns.ok s.handles n (by rw [heq])
    rw [heq] at hfirst
    split
    · rename_i name fault t' heq'
      refine ⟨fun n hn => (by cases hn), ?_⟩
      rintro e ⟨⟩
      obtain ⟨done, hdone, hhandles⟩ := harguments.error t _ (by rw [heq'])
      rw [heq'] at hhandles
      refine ⟨⟨name, fault, rfl, Or.inr (exists_param_of_writeArguments_error heq')⟩, _ ++ done,
        (List.prefix_append_right_inj _).mpr hdone, ?_⟩
      rw [HandleTable.rootAll_append, ← hfirst]
      exact hhandles
    · rename_i values t' heq'
      refine ⟨?_, fun e he => by cases he⟩
      rintro n ⟨⟩
      have hrest := harguments.ok t values (by rw [heq'])
      rw [heq'] at hrest
      rw [outgoing, HandleTable.rootAll_append, ← hfirst]
      exact hrest

/-! ### The whole call -/

/-- A call that fails leaves the handles alone, or its code returned, it fails going back, and there
are handles for some first ones of the objects that it was to hand out. -/
lemma handles_invoke_of_error {s : Session} {symbol : String} {slots : List NativeValue}
    {e : CallError} (he : (s.invoke symbol slots).result = .error e) :
    (s.invoke symbol slots).session.handles = s.handles ∨
    ∃ f c result done, s.model.function? symbol = some f ∧ s.Ends f slots (.ok result) c ∧
      FailsGoingBack f e ∧ done <+: outgoing c result ∧
      (s.invoke symbol slots).session.handles = s.handles.rootAll done := by
  rcases s.invoke_cases symbol slots with ⟨_, hinvoke⟩ | ⟨f, hf, harity, hinvoke⟩
  · rw [hinvoke]
    exact Or.inl rfl
  · rw [hinvoke] at he ⊢
    rcases s.call_cases f slots with ⟨_, _, _, hhandles⟩ | ⟨c, result, hends, hcall⟩
    · exact Or.inl hhandles
    · obtain ⟨rfl, _⟩ := hends.spec harity
      rw [hcall] at he ⊢
      obtain ⟨hfails, done, hdone, hhandles⟩ := (s.handles_finish c result slots).2 e he
      exact Or.inr ⟨_, c, result, done, hf, hends, hfails, hdone, hhandles⟩

lemma exists_param_of_mem_objectsOfArguments {heap : Heap} {o : ObjectRef} (ps : List BoundParam) :
    ∀ {vs : List ManagedValue}, o ∈ objectsOfArguments heap ps vs →
      ∃ (i : Nat) (p : BoundParam), ps[i]? = some p ∧ p.direction ≠ .input ∧
        o ∈ objectsOf heap p.type (vs[i]?.getD .null) := by
  induction ps with
  | nil =>
    intro vs ho
    cases ho
  | cons p ps ih =>
    intro vs ho
    rcases List.mem_append.mp ho with ho | ho
    · split at ho
      · rename_i href
        refine ⟨0, p, rfl, ?_, ?_⟩
        · intro hinput
          rw [hinput] at href
          cases href
        · rwa [← List.head?_eq_getElem?]
      · cases ho
    · obtain ⟨i, q, hq, hnot, ho⟩ := ih ho
      rw [List.getElem?_tail] at ho
      exact ⟨i + 1, q, hq, hnot, ho⟩

/-- A value that carries a handle replaces what a slot held. -/
lemma eq_of_carries_of_wrote {old n new : NativeValue} (hw : Wrote old n new) {type : ManagedType}
    {h : Handle} {path : TypePath} (hc : Carries type n h path) : new = n := by
  cases hw with
  | text => cases hc
  | noText => cases hc
  | other | plain => rfl

/-- A call that succeeds delivers a handle of every object that it hands out, and gives handles to
no others. -/
lemma delivers_of_ok {s : Session} (hs : s.handles.Reachable) {symbol : String}
    {slots : List NativeValue} {n : NativeValue} (hn : (s.invoke symbol slots).result = .ok n) :
    ∃ f os, s.model.function? symbol = some f ∧
      (s.invoke symbol slots).session.handles = s.handles.rootAll os ∧
      ∀ o ∈ os, ∃ h path, DeliversHandle f (s.invoke symbol slots) h path ∧
        (s.invoke symbol slots).session.handles.resolve? h = some o := by
  have hreach := (s.givesHandles_invoke symbol slots).reachable hs
  rcases s.invoke_cases symbol slots with ⟨_, hinvoke⟩ | ⟨f, hf, harity, hinvoke⟩
  · rw [hinvoke] at hn
    cases hn
  rw [hinvoke] at hn hreach ⊢
  rcases s.call_cases f slots with ⟨e, herror, _⟩ | ⟨c, result, hends, hcall⟩
  · rw [herror] at hn
    cases hn
  obtain ⟨rfl, hlen⟩ := hends.spec harity
  rw [hcall] at hn hreach ⊢
  have hhandles := (s.handles_finish c result slots).1 n hn
  have hdelivered := delivered_finish harity hlen hn
  have hheap : (s.finish c result slots).session.heap = c.heap := by
    obtain ⟨t, hsession, _⟩ := s.session_finish c result slots
    rw [hsession]
  generalize hout : s.finish c result slots = out at hn hreach hhandles hdelivered hheap
  refine ⟨_, outgoing c result, hf, hhandles, fun o ho => ?_⟩
  -- the object has its handle in the end, which is the one that was delivered
  obtain ⟨k, hk⟩ := s.handles.exists_get?_rootAll ho
  rw [← hhandles] at hk
  have hroot : (out.session.handles.root o).1 = k := by rw [HandleTable.root_of_get? hk]
  have hres := hreach.get?_iff.mp hk
  rcases List.mem_append.mp ho with ho | ho
  · obtain ⟨n', hn', hconv⟩ := hdelivered.returns
    rw [← hheap] at ho
    obtain ⟨path, hcarries⟩ :=
      exists_carries_of_mem_objectsOf hreach (toNative_eq_ok_iff.mp hconv) le_rfl ho
    exact ⟨k, path, .returned hn' (hroot ▸ hcarries), hres⟩
  · obtain ⟨i, p, hp, hnot, ho⟩ := exists_param_of_mem_objectsOfArguments _ ho
    obtain ⟨old, v, n', new, _, hv, hconv, hnew, hwrote, _⟩ := hdelivered.byRef i p hp hnot
    rw [hv, Option.getD_some, ← hheap] at ho
    obtain ⟨path, hcarries⟩ :=
      exists_carries_of_mem_objectsOf hreach (toNative_eq_ok_iff.mp hconv) le_rfl ho
    rw [hroot] at hcarries
    obtain rfl := eq_of_carries_of_wrote hwrote hcarries
    exact ⟨k, path, .byRef hn hp hnot hnew hcarries, hres⟩

/-! ### Runs -/

/-- How a call came to give an object its handle: it delivered the handle, or it was to hand out the
object and failed going back. -/
inductive HandsOver (s : Session) (symbol : String) (slots : List NativeValue) (o : ObjectRef) :
    Prop
  | delivered {f : NativeFunction} {h : Handle} {path : TypePath}
    (hf : s.model.function? symbol = some f) (hd : DeliversHandle f (s.invoke symbol slots) h path)
    (hres : (s.invoke symbol slots).session.handles.resolve? h = some o)
  | failed {f : NativeFunction} {e : CallError} {c : Call} {result : ManagedValue}
    (hf : s.model.function? symbol = some f) (he : (s.invoke symbol slots).result = .error e)
    (hback : FailsGoingBack f e) (hends : s.Ends f slots (.ok result) c)
    (ho : o ∈ outgoing c result)

lemma handsOver_of_mem_slots_invoke {s : Session} (hs : s.handles.Reachable) {symbol : String}
    {slots : List NativeValue} {o : ObjectRef}
    (ho : o ∈ (s.invoke symbol slots).session.handles.slots) :
    o ∈ s.handles.slots ∨ s.HandsOver symbol slots o := by
  cases hresult : (s.invoke symbol slots).result with
  | ok n =>
    obtain ⟨f, os, hf, hhandles, hdelivers⟩ := delivers_of_ok hs hresult
    rw [hhandles] at ho
    refine (HandleTable.mem_slots_rootAll os ho).imp_right fun ho => ?_
    obtain ⟨h, path, hd, hres⟩ := hdelivers o ho
    exact .delivered hf hd hres
  | error e =>
    rcases handles_invoke_of_error hresult with
      hhandles | ⟨f, c, result, done, hf, hends, hback, hdone, hhandles⟩
    · rw [hhandles] at ho
      exact Or.inl ho
    · rw [hhandles] at ho
      refine (HandleTable.mem_slots_rootAll done ho).imp_right fun ho => ?_
      exact .failed hf hresult hback hends (hdone.subset ho)

/-- An object with a handle had it before the actions, or one of the calls handed it over. -/
lemma handsOver_of_mem_slots_run (actions : List Action) :
    ∀ {s : Session}, s.handles.Reachable → ∀ {o : ObjectRef}, o ∈ (s.run actions).handles.slots →
      o ∈ s.handles.slots ∨ ∃ before symbol slots after,
        actions = before ++ .call symbol slots :: after ∧
        (s.run before).HandsOver symbol slots o := by
  induction actions with
  | nil => exact fun _ _ ho => Or.inl ho
  | cons action actions ih =>
    intro s hs o ho
    rcases ih ((s.givesHandles_act action).reachable hs) ho with
      ho | ⟨before, symbol, slots, after, rfl, hover⟩
    · cases action with
      | call symbol slots =>
        refine (handsOver_of_mem_slots_invoke hs ho).imp_right fun hover => ?_
        exact ⟨[], symbol, slots, actions, rfl, hover⟩
      | define type signature p => exact Or.inl ho
      | work heap statics => exact Or.inl ho
    · exact Or.inr ⟨action :: before, symbol, slots, after, rfl, hover⟩

/-- A call that fails leaves the handles as they were, unless its code returned and then what it
returns, or an argument passed by reference, has no native form.  Then handles were given to the
objects that had their turn before; so the handles are as they were exactly if all these had theirs
already.  In a session, each object with a handle was delivered by a call that succeeded, or one of
the objects that a call was to hand out which failed in this way. -/
theorem handles_of_failed_calls (m : BindingModel) :
    (∀ (s : Session) symbol slots e, (s.invoke symbol slots).result = .error e →
      (s.invoke symbol slots).session.handles = s.handles ∨
      ∃ f c result done, s.model.function? symbol = some f ∧ s.Ends f slots (.ok result) c ∧
        FailsGoingBack f e ∧ done <+: outgoing c result ∧
        (s.invoke symbol slots).session.handles = s.handles.rootAll done ∧
        ((s.invoke symbol slots).session.handles = s.handles ↔
          ∀ o ∈ done, ∃ h, s.handles.byObject.get? o = some h)) ∧
    ∀ actions, ∀ o ∈ ((ofModel m).run actions).handles.slots, ∃ before symbol slots after,
      actions = before ++ .call symbol slots :: after ∧
      ((ofModel m).run before).HandsOver symbol slots o := by
  constructor
  · intro s symbol slots e he
    refine (handles_invoke_of_error he).imp_right ?_
    rintro ⟨f, c, result, done, hf, hends, hback, hdone, hhandles⟩
    refine ⟨f, c, result, done, hf, hends, hback, hdone, hhandles, ?_⟩
    rw [hhandles]
    exact HandleTable.rootAll_eq_self_iff
  · intro actions o ho
    rcases handsOver_of_mem_slots_run actions (.empty : (ofModel m).handles.Reachable) ho with
      ho | hover
    · cases ho
    · exact hover

/-- The code returns a new object and leaves a text in an out parameter for a number.  The call
fails, and there is a handle for the object. -/
theorem handles_of_failed_call_new :
    ∃ a, Source.Assembly.ofText "public class A \x7b public static A F(out int n); \x7d" = .ok a ∧
      let s := (ofModel (.ofAssembly a)).define ⟨[], "A"⟩ "F(out int)"
        (.ofScript [.setArgument 0 (.string "x"), .return .newInstance])
      let out := s.invoke "A_F" [.scalar (.integer .int32 1 rfl)]
      out.result = .error (.conversion "A_F" "n" (.typeMismatch "int" "string")) ∧
        s.handles.size = 0 ∧ out.session.handles.size = 1 := by
  have hrun : (Source.Assembly.ofText
      "public class A \x7b public static A F(out int n); \x7d").toOption.any (fun a =>
        let s := (ofModel (.ofAssembly a)).define ⟨[], "A"⟩ "F(out int)"
          (.ofScript [.setArgument 0 (.string "x"), .return .newInstance])
        let out := s.invoke "A_F" [.scalar (.integer .int32 1 rfl)]
        out.result = .error (.conversion "A_F" "n" (.typeMismatch "int" "string")) &&
          out.session.handles.size = 1) = true := by
    decide +kernel
  obtain ⟨a, ha, hcall⟩ := Source.Assembly.exists_of_any hrun
  obtain ⟨hresult, hsize⟩ := Bool.and_eq_true_iff.mp hcall
  exact ⟨a, ha, of_decide_eq_true hresult, rfl, of_decide_eq_true hsize⟩

end Session

end Interop
