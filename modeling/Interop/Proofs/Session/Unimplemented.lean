/-
# Functions without code

A function for whose class and signature nothing is registered has its default behaviour, or none if
it is a method other than the text of an object.  The functions without either are listed, and these
are the ones of which calls fail for want of code.  Functions that share a signature are listed or
not together.

Main results: `missingImplementation_iff`, and `mem_unimplemented_run_iff` for the list in a session
in which code is registered.
-/
import Interop.Proofs.Model.Indexes
import Interop.Proofs.Session.Arguments
import Interop.Proofs.Session.DispatchKeys
import Interop.Proofs.Session.Handles

namespace Interop

open Model Source Native Managed Marshal

/-- What an action registers code for. -/
def Action.registers? : Action → Option (TypePath × String)
  | .define type signature _ => some (type, signature)
  | _ => none

/-- A call fails for want of code. -/
def CallOutcome.LacksCode (out : CallOutcome) : Prop :=
  ∃ symbol signature, out.result = .error (.missingImplementation symbol signature)

namespace Session

variable {s : Session} {f : NativeFunction}

/-! ### What is registered -/

lemma implementations_invoke (s : Session) (symbol : String) (slots : List NativeValue) :
    (s.invoke symbol slots).session.implementations = s.implementations := by
  rcases s.invoke_cases symbol slots with ⟨_, hinvoke⟩ | ⟨f, _, _, hinvoke⟩
  · rw [hinvoke]
  · rw [hinvoke]
    rcases s.call_eq_cases f slots with ⟨_, hcall⟩ | ⟨_, _, _, hcall⟩ | ⟨c, result, _, hcall⟩
    · rw [hcall]
    · rw [hcall]
    · obtain ⟨t, hsession, _⟩ := s.session_finish c result slots
      rw [hcall, hsession]

/-- After an action a function has no code if it had none and the action registers none for its
key. -/
lemma implementation?_act_eq_none_iff (action : Action) :
    (s.act action).implementation? f = none ↔
      s.implementation? f = none ∧ action.registers? ≠ some f.dispatchKey := by
  cases action with
  | call symbol slots =>
    rw [implementation?, act, implementations_invoke]
    simp only [implementation?, Action.registers?, ne_eq, reduceCtorEq, not_false_eq_true, and_true]
  | define type signature p =>
    have hkey : Action.registers? (.define type signature p) = some f.dispatchKey ↔
        (f.owner, f.signature) = (type, signature) := by
      rw [Action.registers?, Option.some.injEq, NativeFunction.dispatchKey, eq_comm]
    rw [implementation?, act, define, Table.get?_set, ne_eq, hkey]
    split
    · rename_i heq
      simp only [reduceCtorEq, heq, not_true_eq_false, and_false]
    · rename_i hne
      simp only [implementation?, hne, not_false_eq_true, and_true]
  | work heap statics =>
    simp only [implementation?, act, Action.registers?, ne_eq, reduceCtorEq, not_false_eq_true,
      and_true]

lemma implementation?_run_eq_none_iff (actions : List Action) :
    ∀ {s : Session}, (s.run actions).implementation? f = none ↔
      s.implementation? f = none ∧ ∀ action ∈ actions, action.registers? ≠ some f.dispatchKey := by
  induction actions with
  | nil =>
    intro s
    simp only [run, List.foldl_nil, List.not_mem_nil, false_implies, implies_true, and_true]
  | cons action actions ih =>
    intro s
    have hrun : s.run (action :: actions) = (s.act action).run actions := rfl
    rw [hrun, ih, implementation?_act_eq_none_iff, List.forall_mem_cons, and_assoc]

/-- A member for which nothing is registered still has no code. -/
lemma implementation?_run (f : NativeFunction) (actions : List Action) {s : Session}
    (h : s.implementation? f = none)
    (hactions : ∀ action ∈ actions, action.registers? ≠ some f.dispatchKey) :
    (s.run actions).implementation? f = none :=
  (implementation?_run_eq_none_iff actions).mpr ⟨h, hactions⟩

/-! ### The list -/

/-- A function has no behaviour without code. -/
def NeedsCode (f : NativeFunction) : Prop := f.kind = .method ∧ isToString f = false

lemma mem_unimplemented_iff :
    f ∈ s.unimplemented ↔
      f ∈ s.model.functions ∧ NeedsCode f ∧ s.implementation? f = none := by
  simp only [unimplemented, List.mem_filter, Bool.and_eq_true, decide_eq_true_eq,
    Bool.not_eq_true', Option.isNone_iff_eq_none, NeedsCode]

/-- In a session the functions are listed that were listed before and for whose keys nothing was
registered since. -/
theorem mem_unimplemented_run_iff (s : Session) (f : NativeFunction) (actions : List Action) :
    f ∈ (s.run actions).unimplemented ↔
      f ∈ s.unimplemented ∧ ∀ action ∈ actions, action.registers? ≠ some f.dispatchKey := by
  rw [mem_unimplemented_iff, mem_unimplemented_iff, (s.givesHandles_run actions).model,
    implementation?_run_eq_none_iff, and_assoc, and_assoc]

/-! ### Calls -/

lemma default?_eq_none_iff {m : BindingModel} {c : Call} :
    default? m c = none ↔ NeedsCode c.function := by
  rw [default?, NeedsCode]
  dsimp only
  cases c.function.kind with
  | constructor => simp
  | getter property =>
    cases c.receiver with
    | some o => simp
    | none => cases c.function.isStatic <;> simp
  | setter property =>
    cases c.receiver with
    | some o => simp
    | none => cases c.function.isStatic <;> simp
  | method => cases isToString c.function <;> simp

/-- There is nothing to run for a function exactly if it is listed. -/
lemma dispatch_eq_none_iff {c : Call} (hc : c.function ∈ s.model.functions) :
    s.dispatch c = none ↔ c.function ∈ s.unimplemented := by
  rw [mem_unimplemented_iff, dispatch]
  cases s.implementation? c.function with
  | none => simp [default?_eq_none_iff, hc]
  | some p => simp

/-- A call lacks code exactly if it starts and there is nothing to run.  A conversion that fails, on
the way in or back, is another fault, and so is code that fails. -/
lemma lacksCode_call_iff {slots : List NativeValue} :
    (s.call f slots).LacksCode ↔ ∃ c, s.prepare f slots = .ok c ∧ s.dispatch c = none := by
  constructor
  · rintro ⟨symbol, signature, h⟩
    rw [call] at h
    split at h
    · rename_i e hprepare
      cases h
      rcases exists_of_prepare_error hprepare with ⟨_, _, h⟩ | ⟨_, _, _, _, _, _, _, _, _, h⟩ <;>
        cases h
    · rename_i c hprepare
      split at h
      · rename_i hnone
        exact ⟨c, hprepare, hnone⟩
      · cases h
      · obtain ⟨place, h⟩ := exists_unwritable_of_finish h
        cases h
  · rintro ⟨c, hprepare, hnone⟩
    refine ⟨f.symbol, f.signature, ?_⟩
    simp only [call, hprepare, hnone]

/-- A call of a listed function that starts leaves all as it was. -/
lemma call_of_mem_unimplemented {slots : List NativeValue} {c : Call}
    (hf : f ∈ s.unimplemented) (hslots : slots.length = f.arity) (h : s.prepare f slots = .ok c) :
    s.call f slots = ⟨s, .error (.missingImplementation f.symbol f.signature), slots⟩ := by
  obtain ⟨rfl, _⟩ := prepare_spec hslots h
  have hnone : s.dispatch c = none :=
    (dispatch_eq_none_iff (mem_unimplemented_iff.mp hf).1).mpr hf
  simp only [call, h, hnone]

/-- In any state of a session of a bound model, or of what is selected of it: a call of a function
with as many slots as it takes, the receiver and the arguments of which are read, fails for want of
code exactly if the function is listed; the error then names it and its signature, and all is left
as it was.  No call of a function that is not listed fails for want of code. -/
theorem missingImplementation_iff (a : Assembly) (keeps : List (TypePath → Bool)) (s : Session)
    (hs : s.model = keeps.foldl BindingModel.select (.ofAssembly a)) {f : NativeFunction}
    (hf : f ∈ s.model.functions) (slots : List NativeValue) :
    (slots.length = f.arity → ∀ c, s.prepare f slots = .ok c →
      ((s.invoke f.symbol slots).LacksCode ↔ f ∈ s.unimplemented) ∧
      (f ∈ s.unimplemented → s.invoke f.symbol slots =
        ⟨s, .error (.missingImplementation f.symbol f.signature), slots⟩)) ∧
    (f ∉ s.unimplemented → ¬(s.invoke f.symbol slots).LacksCode) := by
  have hfound : s.model.function? f.symbol = some f := by
    have hdistinct : s.model.Distinct := hs ▸ BindingModel.distinct_selected a keeps
    exact (find?_eq_some_iff_of_nodup hdistinct.symbols).mpr ⟨hf, rfl⟩
  have hinvoke : s.invoke f.symbol slots = if slots.length = f.arity then s.call f slots
      else ⟨s, .error (.arity f.symbol f.arity slots.length), slots⟩ := by
    rw [invoke, hfound]
  have hlisted : (s.invoke f.symbol slots).LacksCode → f ∈ s.unimplemented := by
    intro h
    rw [hinvoke] at h
    split at h
    · rename_i hslots
      obtain ⟨c, hprepare, hnone⟩ := lacksCode_call_iff.mp h
      obtain ⟨rfl, _⟩ := prepare_spec hslots hprepare
      exact (dispatch_eq_none_iff hf).mp hnone
    · obtain ⟨_, _, h⟩ := h
      cases h
  refine ⟨fun hslots c hprepare => ?_, mt hlisted⟩
  rw [if_pos hslots] at hinvoke
  have hfails : f ∈ s.unimplemented → s.invoke f.symbol slots =
      ⟨s, .error (.missingImplementation f.symbol f.signature), slots⟩ :=
    fun h => hinvoke.trans (call_of_mem_unimplemented h hslots hprepare)
  exact ⟨⟨hlisted, fun h => ⟨_, _, congrArg CallOutcome.result (hfails h)⟩⟩, hfails⟩

/-- A method fails for want of code, and no longer when code is registered for an overload of it
that has the same signature. -/
theorem missingImplementation_overload :
    ∃ a f, Assembly.ofText ("public class A \x7b public static void f(int x); " ++
        "public static void f(in int x); \x7d") = .ok a ∧
      let s := ofModel (.ofAssembly a)
      let s' := s.define ⟨[], "A"⟩ "f(int)" (.done (.ok .null))
      let slots : List NativeValue := [.scalar (.integer .uint8 7 rfl)]
      f ∈ s.model.functions ∧ f.symbol = "A_f_1" ∧ slots.length = f.arity ∧
        (∃ c, s.prepare f slots = .ok c) ∧ (s.invoke f.symbol slots).LacksCode ∧
        ¬(s'.invoke f.symbol slots).LacksCode := by
  have hread : (Assembly.ofText ("public class A \x7b public static void f(int x); " ++
      "public static void f(in int x); \x7d")).toOption.any (fun a =>
        let s := ofModel (.ofAssembly a)
        let s' := s.define ⟨[], "A"⟩ "f(int)" (.done (.ok .null))
        let slots : List NativeValue := [.scalar (.integer .uint8 7 rfl)]
        s.model.functions.any fun f => decide (f.symbol = "A_f_1" ∧ slots.length = f.arity ∧
          (s.prepare f slots).toOption.isSome = true ∧ f ∈ s.unimplemented ∧
          f ∉ s'.unimplemented)) = true := by
    decide +kernel
  obtain ⟨a, ha, hbound⟩ := Assembly.exists_of_any hread
  obtain ⟨f, hf, hcall⟩ := List.any_eq_true.mp hbound
  obtain ⟨hsymbol, hslots, hprepare, hlisted, hnot⟩ := of_decide_eq_true hcall
  obtain ⟨c, hprepare⟩ := exists_ok_of_isSome hprepare
  have hiff := missingImplementation_iff a [] _ rfl hf [.scalar (.integer .uint8 7 rfl)]
  have hiff' := missingImplementation_iff a []
    ((ofModel (.ofAssembly a)).define ⟨[], "A"⟩ "f(int)" (.done (.ok .null))) rfl hf
    [.scalar (.integer .uint8 7 rfl)]
  exact ⟨a, f, ha, hf, hsymbol, hslots, ⟨c, hprepare⟩, (hiff.1 hslots c hprepare).1.mpr hlisted,
    hiff'.2 hnot⟩

end Session

end Interop
