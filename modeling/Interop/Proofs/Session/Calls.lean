/-
# How calls go

A call is prepared, its code runs, and the call is finished.  This file says what is known between
these steps: a call starts with a value for each parameter, its code does not change which call it
is (`continues_dispatch`), and a call that was finished wrote its result and its arguments
(`finish_of_ok`).  `Defaults` tells what a member without code does; `call_eq_cases` and
`invoke_cases` tell the calls that are finished from those that fail before.
-/
import Interop.Proofs.Managed.Program
import Interop.Session

namespace Interop

open Model Native Managed Marshal

namespace Session

/-- What a member without code does: it fails, it answers with a value that is no object or with a
field of the receiver or of the class, or it stores its first argument in such a field. -/
inductive Defaults (c : Call) : Except ManagedFailure ManagedValue → Call → Prop
  | failure (failure : ManagedFailure) : Defaults c (.error failure) c
  | value {v : ManagedValue} (h : ∀ o, v ≠ .object o) : Defaults c (.ok v) c
  | field {o : ObjectRef} {name : String} {v : ManagedValue} (h : c.heap.field? o name = some v) :
    Defaults c (.ok v) c
  | static {name : String} {v : ManagedValue} (h : c.static? name = some v) : Defaults c (.ok v) c
  | setField (o : ObjectRef) (name : String) : Defaults c (.ok .null)
    { c with heap := c.heap.setField o name (c.arguments.head?.getD .null) }
  | setStatic (name : String) : Defaults c (.ok .null)
    { c with statics := c.statics.set (c.function.owner, name) (c.arguments.head?.getD .null) }

lemma defaults_of_default? {m : BindingModel} {c c' : Call}
    {result : Except ManagedFailure ManagedValue} (h : default? m c = some (result, c')) :
    Defaults c result c' := by
  rw [default?] at h
  dsimp only at h
  split at h
  · cases h
    exact .value nofun
  · rename_i property _
    split at h
    · rename_i o _
      cases h
      cases hfield : c.heap.field? o property with
      | none => exact .value (defaultValue_ne_object m _)
      | some v => exact .field hfield
    · split at h
      · cases h
        cases hstatic : c.static? property with
        | none => exact .value (defaultValue_ne_object m _)
        | some v => exact .static hstatic
      · cases h
        exact .failure _
  · rename_i property _
    split at h
    · rename_i o _
      cases h
      exact .setField o property
    · split at h
      · cases h
        exact .setStatic property
      · cases h
        exact .failure _
  · split at h
    · cases h
      exact .value nofun
    · cases h

lemma Defaults.continues {c c' : Call} {result : Except ManagedFailure ManagedValue}
    (h : Defaults c result c') : c.Continues c' := by
  cases h with
  | failure | value | field | static => exact .refl c
  | setField | setStatic => exact ⟨rfl, rfl, rfl⟩

lemma continues_dispatch {s : Session} {c c' : Call}
    {result : Except ManagedFailure ManagedValue} (h : s.dispatch c = some (result, c')) :
    c.Continues c' := by
  rw [dispatch] at h
  split at h
  · rename_i p _
    have hrun := p.continues_run c
    rw [Option.some.inj h] at hrun
    exact hrun
  · exact (defaults_of_default? h).continues

/-! ### The start of a call -/

/-- There is a value for each slot that is read. -/
lemma length_of_readArguments {m : BindingModel} {handles : HandleTable}
    (slots : List (BoundParam × NativeValue)) :
    ∀ {heap heap' : Heap} {values : List ManagedValue},
      readArguments m handles heap slots = .ok (values, heap') →
        values.length = slots.length := by
  induction slots with
  | nil =>
    intro heap heap' values h
    cases h
    rfl
  | cons p slots ih =>
    intro heap heap' values h
    obtain ⟨p, slot⟩ := p
    rw [readArguments] at h
    split at h
    · cases h
    · rename_i v heap₁ _
      cases hrest : readArguments m handles heap₁ slots with
      | error e => rw [hrest] at h; cases h
      | ok rest =>
        rw [hrest] at h
        cases h
        rw [List.length_cons, List.length_cons, ih hrest]

/-- A call starts with a value for each parameter. -/
lemma prepare_spec {s : Session} {f : NativeFunction} {slots : List NativeValue} {c : Call}
    (hslots : slots.length = f.arity) (h : s.prepare f slots = .ok c) :
    c.function = f ∧ c.arguments.length = f.params.length := by
  rw [prepare] at h
  split at h
  · cases h
  · dsimp only at h
    split at h
    · cases h
    · rename_i arguments heap hread
      cases h
      refine ⟨rfl, ?_⟩
      -- as many slots are left as there are parameters, with or without the one of a receiver
      have hlen : arguments.length = _ := length_of_readArguments _ hread
      rw [List.length_zip] at hlen
      dsimp only
      rw [NativeFunction.arity] at hslots
      split at hlen
      · rename_i hhandle
        rw [if_pos hhandle] at hslots
        rw [List.length_tail] at hlen
        omega
      · rename_i hhandle
        rw [if_neg hhandle] at hslots
        omega

/-! ### The end of a call -/

/-- A call that was finished wrote its result and then its arguments. -/
lemma finish_of_ok {s : Session} {c : Call} {result : ManagedValue} {slots : List NativeValue}
    {value : NativeValue} (h : (s.finish c result slots).result = .ok value) :
    ∃ t values t',
      toNative s.model c.heap c.function.returns s.handles (returned c result) = (.ok value, t) ∧
      writeArguments s.model c.heap t c.function.params c.arguments = (.ok values, t') ∧
      s.finish c result slots =
        ⟨{ s with heap := c.heap, statics := c.statics, handles := t' }, .ok value,
          writeSlots slots ((if c.function.takesHandle then [none] else []) ++ values)⟩ := by
  rw [finish] at h ⊢
  dsimp only at h ⊢
  cases hr : toNative s.model c.heap c.function.returns s.handles (returned c result) with
  | mk r t =>
    rw [hr] at h
    cases r with
    | error e => cases h
    | ok returns =>
      dsimp only at h ⊢
      cases hw : writeArguments s.model c.heap t c.function.params c.arguments with
      | mk w t' =>
        rw [hw] at h
        cases w with
        | error e => cases h
        | ok values =>
          cases h
          exact ⟨t, values, t', rfl, hw, rfl⟩

/-- A part of what a call gives back cannot be written, and the error that this is: the result, or
the argument at a place. -/
inductive Unwritable (m : BindingModel) (c : Call) (result : ManagedValue) :
    Option Nat → CallError → Prop
  | result {t t' : HandleTable} {fault : ConversionFault}
    (h : toNative m c.heap c.function.returns t (returned c result) = (.error fault, t')) :
    Unwritable m c result none (.conversion c.function.symbol "return" fault)
  | argument {i : Nat} {p : BoundParam} {t t' : HandleTable} {fault : ConversionFault}
    (hp : c.function.params[i]? = some p) (href : p.direction.isByRef = true)
    (h : toNative m c.heap p.type t (c.arguments[i]?.getD .null) = (.error fault, t')) :
    Unwritable m c result (some i) (.conversion c.function.symbol p.name fault)

/-- If the arguments cannot be written, then one that is passed by reference cannot. -/
lemma exists_of_writeArguments_error {m : BindingModel} {heap : Heap} (ps : List BoundParam) :
    ∀ {t t' : HandleTable} {vs : List ManagedValue} {name : String} {fault : ConversionFault},
      writeArguments m heap t ps vs = (.error (name, fault), t') →
        ∃ (i : Nat) (p : BoundParam) (t₁ t₂ : HandleTable), ps[i]? = some p ∧ p.name = name ∧
          p.direction.isByRef = true ∧
          toNative m heap p.type t₁ (vs[i]?.getD .null) = (.error fault, t₂) := by
  induction ps with
  | nil =>
    intro t t' vs name fault h
    cases h
  | cons p ps ih =>
    intro t t' vs name fault h
    have hlater : ∀ {t₁ t₂ : HandleTable},
        writeArguments m heap t₁ ps vs.tail = (.error (name, fault), t₂) →
          ∃ (i : Nat) (q : BoundParam) (t₁ t₂ : HandleTable), (p :: ps)[i]? = some q ∧
            q.name = name ∧ q.direction.isByRef = true ∧
            toNative m heap q.type t₁ (vs[i]?.getD .null) = (.error fault, t₂) := by
      intro t₁ t₂ hrest
      obtain ⟨i, q, t₁, t₂, hq, hname, href, hfault⟩ := ih hrest
      rw [List.getElem?_tail] at hfault
      exact ⟨i + 1, q, t₁, t₂, hq, hname, href, hfault⟩
    rw [writeArguments] at h
    split at h
    · rename_i href
      split at h
      · rename_i hfault
        cases h
        rw [List.head?_eq_getElem?] at hfault
        exact ⟨0, p, _, _, rfl, rfl, href, hfault⟩
      · split at h
        · rename_i hrest
          cases h
          exact hlater hrest
        · cases h
    · split at h
      · rename_i hrest
        cases h
        exact hlater hrest
      · cases h

/-- A call that fails when it is finished has a part that cannot be written. -/
lemma exists_unwritable_of_finish {s : Session} {c : Call} {result : ManagedValue}
    {slots : List NativeValue} {e : CallError} (h : (s.finish c result slots).result = .error e) :
    ∃ place, Unwritable s.model c result place e := by
  rw [finish] at h
  dsimp only at h
  split at h
  · rename_i fault t hfault
    cases h
    exact ⟨none, .result hfault⟩
  · split at h
    · rename_i name fault t hfault
      cases h
      obtain ⟨i, p, t₁, t₂, hp, rfl, href, hfault⟩ := exists_of_writeArguments_error _ hfault
      exact ⟨some i, .argument hp href hfault⟩
    · cases h

/-! ### The whole call -/

/-- The code registered for a function, or its default behaviour, ended in a state of the call. -/
def Ends (s : Session) (f : NativeFunction) (slots : List NativeValue)
    (result : Except ManagedFailure ManagedValue) (c : Call) : Prop :=
  ∃ start, s.prepare f slots = .ok start ∧ s.dispatch start = some (result, c)

lemma call_of_ends_error {s : Session} {f : NativeFunction} {slots : List NativeValue}
    {failure : ManagedFailure} {c : Call} (h : s.Ends f slots (.error failure) c) :
    (s.call f slots).result = .error (.managed f.symbol failure) := by
  obtain ⟨start, hstart, hend⟩ := h
  simp only [call, hstart, hend]

/-- A call whose code returned still has its function, and an argument for each parameter. -/
lemma Ends.spec {s : Session} {f : NativeFunction} {slots : List NativeValue}
    {result : Except ManagedFailure ManagedValue} {c : Call} (h : s.Ends f slots result c)
    (hslots : slots.length = f.arity) :
    c.function = f ∧ c.arguments.length = f.params.length := by
  obtain ⟨start, hstart, hend⟩ := h
  obtain ⟨hfunction, hlen⟩ := prepare_spec hslots hstart
  have hcont := continues_dispatch hend
  exact ⟨hcont.function.trans hfunction, hcont.length.trans hlen⟩

/-- The three ways of a call: it fails before its code runs, its code fails, or its code returns and
the call is finished. -/
lemma call_eq_cases (s : Session) (f : NativeFunction) (slots : List NativeValue) :
    (∃ e, s.call f slots = ⟨s, .error e, slots⟩) ∨
    (∃ failure c, s.Ends f slots (.error failure) c ∧
      s.call f slots = ⟨{ s with heap := c.heap, statics := c.statics },
        .error (.managed f.symbol failure), slots⟩) ∨
    ∃ c result, s.Ends f slots (.ok result) c ∧ s.call f slots = s.finish c result slots := by
  rw [call]
  split
  · rename_i e _
    exact Or.inl ⟨_, rfl⟩
  · rename_i start hstart
    split
    · exact Or.inl ⟨_, rfl⟩
    · rename_i failure c hend
      exact Or.inr (Or.inl ⟨failure, c, ⟨start, hstart, hend⟩, rfl⟩)
    · rename_i result c hend
      exact Or.inr (Or.inr ⟨c, result, ⟨start, hstart, hend⟩, rfl⟩)

/-- A call fails and leaves slots and handles alone, or its code returned and the call was
finished. -/
lemma call_cases (s : Session) (f : NativeFunction) (slots : List NativeValue) :
    (∃ e, (s.call f slots).result = .error e ∧ (s.call f slots).slots = slots ∧
      (s.call f slots).session.handles = s.handles) ∨
    ∃ c result, s.Ends f slots (.ok result) c ∧ s.call f slots = s.finish c result slots := by
  rcases s.call_eq_cases f slots with ⟨e, h⟩ | ⟨failure, c, _, h⟩ | h
  · rw [h]
    exact Or.inl ⟨e, rfl, rfl, rfl⟩
  · rw [h]
    exact Or.inl ⟨_, rfl, rfl, rfl⟩
  · exact Or.inr h

/-- A call with an unknown symbol or a wrong number of slots does nothing. -/
lemma invoke_cases (s : Session) (symbol : String) (slots : List NativeValue) :
    (∃ e, s.invoke symbol slots = ⟨s, .error e, slots⟩) ∨
    ∃ f, s.model.function? symbol = some f ∧ slots.length = f.arity ∧
      s.invoke symbol slots = s.call f slots := by
  rw [invoke]
  split
  · exact Or.inl ⟨_, rfl⟩
  · rename_i f hf
    split
    · rename_i harity
      exact Or.inr ⟨f, hf, harity, rfl⟩
    · exact Or.inl ⟨_, rfl⟩

end Session

end Interop
