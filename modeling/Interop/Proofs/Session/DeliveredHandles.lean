/-
# Delivered handles stay good

A handle that a call delivered, as its result, in an array that it returned or in a slot passed by
reference, stands for an object that was checked against a declared class when the handle was
given out.  The object never changes its class and the handle never changes its object; so
wherever a class is expected that the declared one is assignable to, the handle is accepted from
then on.

Main result: `delivered_handle_accepted`.
-/
import Interop.Proofs.Marshal.HandleFaults
import Interop.Proofs.Model.Assignable
import Interop.Proofs.Session.Arguments
import Interop.Proofs.Session.Handles

namespace Interop

open Model Native Managed Marshal

namespace Session

/-- A call that succeeded delivers a handle as an object of a class: in its result, or in the slot
of a parameter passed by reference. -/
inductive DeliversHandle (f : NativeFunction) (out : CallOutcome) (h : Handle) (path : TypePath) :
    Prop
  | returned {n : NativeValue} (hn : out.result = .ok n) (hc : Carries f.returns n h path)
  | byRef {n new : NativeValue} {i : Nat} {p : BoundParam} (hn : out.result = .ok n)
    (hp : f.params[i]? = some p) (hdirection : p.direction ≠ .input)
    (hnew : out.slots[slotOf f i]? = some new) (hc : Carries p.type new h path)

/-- A call passes a handle where an object of a class is expected: as its receiver, or in the slot
of a parameter that is read. -/
inductive PassesHandle (f : NativeFunction) (slots : List NativeValue) :
    (parameter : String) → Handle → TypePath → Prop
  | receiver {h : Handle} (hhandle : f.takesHandle = true)
    (hslot : slots.head? = some (.handle h)) :
    PassesHandle f slots "this" h f.owner
  | argument {i : Nat} {p : BoundParam} {v : NativeValue} {h : Handle} {path : TypePath}
    (hp : f.params[i]? = some p) (hdirection : p.direction ≠ .out)
    (hslot : slots[slotOf f i]? = some v) (hc : Carries p.type v h path) :
    PassesHandle f slots p.name h path

/-! ### Delivery -/

/-- What was written to a slot carries a handle only if the value that was written does. -/
lemma eq_of_wrote_of_carries {old n new : NativeValue} (hw : Wrote old n new) {type : ManagedType}
    {h : Handle} {path : TypePath} (hc : Carries type new h path) : n = new := by
  cases hw with
  | text => cases hc
  | noText => cases hc
  | other | plain => rfl

/-- A delivered handle resolves to an object of the class that it was delivered as. -/
lemma exists_object_of_delivers {s : Session} (hs : s.handles.Reachable) {symbol : String}
    {slots : List NativeValue} {f : NativeFunction} (hf : s.model.function? symbol = some f)
    {h : Handle} {path : TypePath} (hd : DeliversHandle f (s.invoke symbol slots) h path) :
    ∃ o, (s.invoke symbol slots).session.handles.resolve? h = some o ∧
      s.model.isAssignable o.type path = true := by
  have hreach := (s.givesHandles_invoke symbol slots).reachable hs
  have hends : ∀ n, (s.invoke symbol slots).result = .ok n →
      ∃ c result, c.function = f ∧ Delivered s.model c result slots (s.invoke symbol slots) := by
    intro n hn
    obtain ⟨f', c, result, hf', _, _, hfunction, hdelivered⟩ := s.exists_delivered hn
    rw [hf] at hf'
    cases hf'
    exact ⟨c, result, hfunction, hdelivered⟩
  cases hd with
  | returned hn hc =>
    obtain ⟨c, result, rfl, hdelivered⟩ := hends _ hn
    obtain ⟨n', hn', hconv⟩ := hdelivered.returns
    rw [hn] at hn'
    cases hn'
    exact exists_object_of_writes hreach (toNative_eq_ok_iff.mp hconv) hc
  | byRef hn hp hdirection hnew hc =>
    obtain ⟨c, result, rfl, hdelivered⟩ := hends _ hn
    obtain ⟨old, v, n', new', _, _, hconv, hnew', hwrote, _⟩ := hdelivered.byRef _ _ hp hdirection
    rw [hnew] at hnew'
    cases hnew'
    obtain rfl := eq_of_wrote_of_carries hwrote hc
    exact exists_object_of_writes hreach (toNative_eq_ok_iff.mp hconv) hc

/-! ### Passing -/

/-- A call that does not start because of a handle passes one that cannot be resolved where it is
passed. -/
lemma exists_passed_of_prepare_error {s : Session} {f : NativeFunction} {slots : List NativeValue}
    {name parameter : String} {fault : ConversionFault} (hfault : fault.concernsHandle = true)
    (h : s.prepare f slots = .error (.conversion name parameter fault)) :
    ∃ k path, PassesHandle f slots parameter k path ∧
      resolve s.model s.handles k path = .error fault := by
  rcases exists_of_prepare_error h with
    ⟨fault', hreceiver, heq⟩ | ⟨i, p, slot, heap, fault', hp, hslot, hdirection, hread, heq⟩
  · cases heq
    rw [receiver] at hreceiver
    split at hreceiver
    · rename_i hhandle
      split at hreceiver
      · rename_i k hslot
        have hhead : slots.head? = some (.handle k) := by
          cases hslots : slots.head? with
          | none => rw [hslots] at hslot; cases hslot
          | some v =>
            rw [hslots, Option.getD_some] at hslot
            rw [hslot]
        exact ⟨k, f.owner, .receiver hhandle hhead, eq_error_of_map hreceiver⟩
      · cases hreceiver
        cases hfault
      · cases hreceiver
        cases hfault
    · split at hreceiver <;> cases hreceiver
  · cases heq
    obtain ⟨k, path, hc, hresolve⟩ := exists_carries_of_error hfault hread
    exact ⟨k, path, .argument hp hdirection hslot hc, hresolve⟩

/-- A call that fails because of a handle passes one that cannot be resolved where it is passed,
unless its code has returned already. -/
lemma exists_passed_of_invoke_error {s : Session} {symbol : String} {slots : List NativeValue}
    {name parameter : String} {fault : ConversionFault} (hfault : fault.concernsHandle = true)
    (h : (s.invoke symbol slots).result = .error (.conversion name parameter fault)) :
    ∃ f, s.model.function? symbol = some f ∧
      ((∃ c result, s.Ends f slots (.ok result) c) ∨
        ∃ k path, PassesHandle f slots parameter k path ∧
          resolve s.model s.handles k path = .error fault) := by
  rw [invoke] at h
  split at h
  · cases h
  · rename_i f hf
    refine ⟨f, hf, ?_⟩
    split at h
    · rw [call] at h
      split at h
      · rename_i e hprepare
        cases h
        exact Or.inr (exists_passed_of_prepare_error hfault hprepare)
      · rename_i start hstart
        split at h
        · cases h
        · cases h
        · rename_i result c hend
          exact Or.inl ⟨c, result, start, hstart, hend⟩
    · cases h

/-- A handle that a call delivered at a declared class resolves from then on to the same object,
whatever happens in between.  As a receiver and as an argument it is converted to that object
wherever a class is expected that the declared class is assignable to; and when a call fails for a
handle before its code has returned, then for one that is passed in its slots, and not for this one
at such a class. -/
theorem delivered_handle_accepted (a : Source.Assembly) (before after : List Action)
    (symbol : String) (slots : List NativeValue) (f : NativeFunction) (h : Handle)
    (declared : TypePath)
    (hf : ((ofModel (.ofAssembly a)).run before).model.function? symbol = some f)
    (hd : DeliversHandle f (((ofModel (.ofAssembly a)).run before).invoke symbol slots) h
      declared) :
    let s := (((ofModel (.ofAssembly a)).run before).invoke symbol slots).session.run after
    ∃ o, s.handles.resolve? h = some o ∧
      (∀ expected, s.model.isAssignable declared expected = true →
        (∀ heap, toManaged s.model s.handles (.object expected) heap (.handle h) =
          .ok (.object o, heap)) ∧
        (∀ g : NativeFunction, g.takesHandle = true → g.owner = expected →
          s.receiver g (some (.handle h)) = .ok (some o, s.heap))) ∧
      (∀ symbol' slots' name parameter fault, fault.concernsHandle = true →
        (s.invoke symbol' slots').result = .error (.conversion name parameter fault) →
          ∃ g, s.model.function? symbol' = some g ∧
            ((∃ c result, s.Ends g slots' (.ok result) c) ∨
              ∃ k expected, PassesHandle g slots' parameter k expected ∧
                resolve s.model s.handles k expected = .error fault ∧
                ¬ (k = h ∧ s.model.isAssignable declared expected = true))) := by
  intro s
  have hreach := reachable_run (.ofAssembly a) before
  obtain ⟨o, hres, hassignable⟩ := exists_object_of_delivers hreach hf hd
  -- neither the model nor the object of the handle changes afterwards
  have hlater := givesHandles_run after
    (((ofModel (.ofAssembly a)).run before).invoke symbol slots).session
  have hmodel : s.model = ((ofModel (.ofAssembly a)).run before).model :=
    hlater.model.trans (givesHandles_invoke _ symbol slots).model
  have hres' : s.handles.resolve? h = some o := HandleTable.resolve?_of_le hlater.le hres
  have hresolve : ∀ expected, s.model.isAssignable declared expected = true →
      resolve s.model s.handles h expected = .ok o := by
    intro expected hexpected
    rw [← hmodel] at hassignable
    exact resolve_eq_ok_iff.mpr
      ⟨hres', BindingModel.isAssignable_trans hassignable hexpected⟩
  refine ⟨o, hres', ?_, ?_⟩
  · intro expected hexpected
    constructor
    · intro heap
      rw [toManaged, hresolve expected hexpected]
      rfl
    · rintro g hhandle rfl
      rw [receiver, if_pos hhandle, Option.getD_some]
      dsimp only
      rw [hresolve g.owner hexpected]
      rfl
  · intro symbol' slots' name parameter fault hfault hinvoke
    obtain ⟨g, hg, hends | ⟨k, expected, hpasses, hfailed⟩⟩ :=
      exists_passed_of_invoke_error hfault hinvoke
    · exact ⟨g, hg, Or.inl hends⟩
    refine ⟨g, hg, Or.inr ⟨k, expected, hpasses, hfailed, ?_⟩⟩
    rintro ⟨rfl, hexpected⟩
    rw [hresolve expected hexpected] at hfailed
    cases hfailed

/-- A new object of a class is accepted where one of the base is expected, also after another
call. -/
theorem delivered_handle_accepted_as_base :
    ∃ a f h, Source.Assembly.ofText ("public class B \x7b \x7d " ++
        "public class D : B \x7b \x7d") = .ok a ∧
      ((ofModel (.ofAssembly a)).run []).model.function? "D_new" = some f ∧
      DeliversHandle f (((ofModel (.ofAssembly a)).run []).invoke "D_new" []) h ⟨[], "D"⟩ ∧
      ∃ o, toManaged (.ofAssembly a) ((((ofModel (.ofAssembly a)).run []).invoke "D_new"
          []).session.run [.call "B_new" []]).handles (.object ⟨[], "B"⟩) .empty (.handle h) =
        .ok (.object o, .empty) := by
  have hrun : (Source.Assembly.ofText ("public class B \x7b \x7d " ++
      "public class D : B \x7b \x7d")).toOption.any (fun a =>
        ((BindingModel.ofAssembly a).function? "D_new").any (fun f =>
          f.returns = .object ⟨[], "D"⟩ &&
          ((ofModel (.ofAssembly a)).invoke "D_new" []).result =
            .ok (.handle (HandleTable.handleAt 0))) &&
        (BindingModel.ofAssembly a).isAssignable ⟨[], "D"⟩ ⟨[], "B"⟩) = true := by
    decide +kernel
  obtain ⟨a, ha, hcalls⟩ := Source.Assembly.exists_of_any hrun
  obtain ⟨hnew, hassignable⟩ := Bool.and_eq_true_iff.mp hcalls
  obtain ⟨f, hf, hout⟩ := (Option.any_eq_true ..).mp hnew
  obtain ⟨hreturns, hresult⟩ := Bool.and_eq_true_iff.mp hout
  have hdelivers : DeliversHandle f (((ofModel (.ofAssembly a)).run []).invoke "D_new" [])
      (HandleTable.handleAt 0) ⟨[], "D"⟩ := by
    refine .returned (of_decide_eq_true hresult) ?_
    rw [of_decide_eq_true hreturns]
    exact .handle _ _
  obtain ⟨o, -, haccepted, -⟩ :=
    delivered_handle_accepted a [] [.call "B_new" []] "D_new" [] f _ _ hf hdelivers
  have hmodel := ((givesHandles_invoke ((ofModel (.ofAssembly a)).run []) "D_new" []).trans
    (givesHandles_run [.call "B_new" []] _)).model
  rw [hmodel] at haccepted
  exact ⟨a, f, _, ha, hf, hdelivers, o, (haccepted _ hassignable).1 .empty⟩

end Session

end Interop
