/-
# A call writes all or nothing

A call can fail at many places: before the code of the member runs, in that code, and after it,
when the result or an argument has no native form.  The slots of the caller are written to at the
very end, so that a failed call leaves all of them alone, and one that succeeds leaves in each
slot passed by reference the native form of the value that the code gave the parameter.

Main result: `invoke_all_or_nothing`.
-/
import Interop.Proofs.Marshal.Rooting
import Interop.Proofs.Marshal.Success
import Interop.Proofs.Session.Calls

namespace Interop

open Model Native Managed Marshal

namespace Session

/-! ### Arguments -/

/-- What there is to write for each parameter: the native form of the argument if it is passed by
reference, which it keeps as long as no handle is taken back, and else nothing. -/
lemma writeArguments_spec {m : BindingModel} {heap : Heap} (ps : List BoundParam) :
    ∀ {t t' : HandleTable} {vs : List ManagedValue} {ns : List (Option NativeValue)},
      writeArguments m heap t ps vs = (.ok ns, t') →
        ns.length = ps.length ∧
        ∀ (i : Nat) (p : BoundParam), ps[i]? = some p →
          (p.direction.isByRef = false → ns[i]? = some none) ∧
          (p.direction.isByRef = true → ∃ n, ns[i]? = some (some n) ∧
            toNative m heap p.type t' (vs[i]?.getD .null) = (.ok n, t')) := by
  induction ps with
  | nil =>
    intro t t' vs ns h
    cases h
    exact ⟨rfl, fun i p hp => by simp at hp⟩
  | cons p ps ih =>
    intro t t' vs ns h
    have htail : ∀ i : Nat, vs.tail[i]? = vs[i + 1]? := fun i => List.getElem?_tail
    rw [writeArguments] at h
    split at h
    · rename_i href
      split at h
      · cases h
      · rename_i n t₁ hn
        split at h
        · cases h
        · rename_i ns' t₂ hrest
          cases h
          obtain ⟨hlen, hparams⟩ := ih hrest
          refine ⟨by rw [List.length_cons, List.length_cons, hlen], ?_⟩
          intro i q hq
          cases i with
          | zero =>
            obtain rfl : p = q := by simpa using hq
            -- the arguments behind this one may get handles, but they take none back
            have hle : t₁ ≤ t' := (rooting_writeArguments m heap ps vs.tail).le_of_eq hrest
            refine ⟨fun hnot => absurd (href.symm.trans hnot) (by simp), fun _ => ⟨n, rfl, ?_⟩⟩
            rw [← List.head?_eq_getElem?]
            exact (rooting_toNative m heap p.type _).again_of_eq hn hle
          | succ i =>
            have hi := hparams i q (by simpa using hq)
            rw [htail] at hi
            exact hi
    · rename_i href
      split at h
      · cases h
      · rename_i ns' t₂ hrest
        cases h
        obtain ⟨hlen, hparams⟩ := ih hrest
        refine ⟨by rw [List.length_cons, List.length_cons, hlen], ?_⟩
        intro i q hq
        cases i with
        | zero =>
          obtain rfl : p = q := by simpa using hq
          exact ⟨fun _ => rfl, fun h => absurd h href⟩
        | succ i =>
          have hi := hparams i q (by simpa using hq)
          rw [htail] at hi
          exact hi

/-! ### The end of a call -/

/-- What a slot holds after a value was written to it.  A text buffer has its whole content
replaced by a text, and is emptied by null; any other slot holds the value itself. -/
inductive Wrote : NativeValue → NativeValue → NativeValue → Prop
  | text (b : TextBuffer) (t : ConstText) : Wrote (.text b) (.str t) (.text (.ofOctets t.octets))
  | noText (b : TextBuffer) : Wrote (.text b) .null (.text .empty)
  | other (b : TextBuffer) (v : NativeValue) (h : v ≠ .null) (ht : ∀ t, v ≠ .str t) :
    Wrote (.text b) v v
  | plain (old v : NativeValue) (h : ∀ b, old ≠ .text b) : Wrote old v v

lemma wrote_writeBack (old v : NativeValue) : Wrote old v (writeBack old v) := by
  cases old with
  | text b =>
    cases v with
    | str t => exact .text b t
    | null => exact .noText b
    | _ => exact .other b _ (by simp) (by simp)
  | _ => exact .plain _ v (by simp)

/-- A value of type `string` has a text or null for its native form. -/
lemma toNative_string {m : BindingModel} {heap : Heap} {t t' : HandleTable} {v : ManagedValue}
    {n : NativeValue} (h : toNative m heap .string t v = (.ok n, t')) :
    n = .null ∨ ∃ text, n = .str text := by
  cases toNative_eq_ok_iff.mp h with
  | noText => exact Or.inl rfl
  | string => exact Or.inr ⟨_, rfl⟩

/-- The place of the slot of a parameter. -/
def slotOf (f : NativeFunction) (i : Nat) : Nat := i + if f.takesHandle then 1 else 0

/-- What a call leaves whose code ended in the state `c` with a result: it returns the native form
of the result; the slots of the receiver and of parameters that are not passed by reference are as
they were, and to each of the others the native form of the value of the parameter was written. -/
structure Delivered (m : BindingModel) (c : Call) (result : ManagedValue)
    (slots : List NativeValue) (out : CallOutcome) : Prop where
  returns : ∃ n, out.result = .ok n ∧
    toNative m out.session.heap c.function.returns out.session.handles (returned c result) =
      (.ok n, out.session.handles)
  length : out.slots.length = slots.length
  receiver : c.function.takesHandle = true → out.slots[0]? = slots[0]?
  input : ∀ (i : Nat) (p : BoundParam), c.function.params[i]? = some p → p.direction = .input →
    out.slots[slotOf c.function i]? = slots[slotOf c.function i]?
  byRef : ∀ (i : Nat) (p : BoundParam), c.function.params[i]? = some p → p.direction ≠ .input →
    ∃ old v n new, slots[slotOf c.function i]? = some old ∧ c.arguments[i]? = some v ∧
      toNative m out.session.heap p.type out.session.handles v = (.ok n, out.session.handles) ∧
      out.slots[slotOf c.function i]? = some new ∧ Wrote old n new ∧
      (p.type = .string → (∃ b, old = .text b) → ∃ b, new = .text b)

/-- What is written to the slots of the parameters, seen from the slots of the call. -/
lemma writeSlots_slotOf {f : NativeFunction} {slots : List NativeValue}
    {values : List (Option NativeValue)} {i : Nat} {old : NativeValue}
    {value : Option NativeValue} (hold : slots[slotOf f i]? = some old)
    (hvalue : values[i]? = some value) :
    (writeSlots slots ((if f.takesHandle then [none] else []) ++ values))[slotOf f i]? =
      some (match value with | some v => writeBack old v | none => old) := by
  have hplace : ((if f.takesHandle then [none] else []) ++ values)[slotOf f i]? =
      some value := by
    rw [slotOf]
    split
    · exact hvalue
    · exact hvalue
  rw [writeSlots, List.getElem?_zipWith, hold, hplace]
  cases value <;> rfl

lemma exists_slot {α : Type} {f : NativeFunction} {slots : List α} {i : Nat} {p : BoundParam}
    (hslots : slots.length = f.arity) (hp : f.params[i]? = some p) :
    ∃ old, slots[slotOf f i]? = some old := by
  obtain ⟨hlt, _⟩ := List.getElem?_eq_some_iff.mp hp
  have hbound : slotOf f i < slots.length := by
    rw [hslots, NativeFunction.arity, slotOf]
    omega
  exact ⟨_, List.getElem?_eq_getElem hbound⟩

lemma isByRef_of_ne_input {d : Direction} (h : d ≠ .input) : d.isByRef = true := by
  cases d with
  | input => exact absurd rfl h
  | out => rfl
  | ref => rfl

lemma delivered_finish {s : Session} {c : Call} {result : ManagedValue}
    {slots : List NativeValue} {value : NativeValue} (hslots : slots.length = c.function.arity)
    (harguments : c.arguments.length = c.function.params.length)
    (h : (s.finish c result slots).result = .ok value) :
    Delivered s.model c result slots (s.finish c result slots) := by
  obtain ⟨t, values, t', hr, hw, heq⟩ := finish_of_ok h
  obtain ⟨hlen, hparams⟩ := writeArguments_spec _ hw
  -- with the handles that there are in the end, the result has the same native form
  have hle : t ≤ t' := (rooting_writeArguments s.model c.heap _ _).le_of_eq hw
  have hreturns := (rooting_toNative s.model c.heap _ _).again_of_eq hr hle
  rw [heq]
  refine ⟨⟨value, rfl, hreturns⟩, ?_, ?_, ?_, ?_⟩
  · have hwhole := c.function.length_receiver_append none hlen
    rw [writeSlots, List.length_zipWith, hwhole, hslots, Nat.min_self]
  · intro hhandle
    rw [writeSlots, List.getElem?_zipWith, if_pos hhandle]
    cases slots[0]? <;> rfl
  · intro i p hp hinput
    obtain ⟨old, hold⟩ := exists_slot hslots hp
    have hnone := (hparams i p hp).1 (by rw [hinput]; rfl)
    rw [writeSlots_slotOf hold hnone, hold]
  · intro i p hp hnot
    obtain ⟨old, hold⟩ := exists_slot hslots hp
    obtain ⟨n, hn, hconv⟩ := (hparams i p hp).2 (isByRef_of_ne_input hnot)
    obtain ⟨hlt, _⟩ := List.getElem?_eq_some_iff.mp hp
    have hv : c.arguments[i]? = some c.arguments[i] :=
      List.getElem?_eq_getElem (harguments ▸ hlt)
    rw [hv, Option.getD_some] at hconv
    refine ⟨old, c.arguments[i], n, writeBack old n, hold, hv, hconv,
      writeSlots_slotOf hold hn, wrote_writeBack old n, ?_⟩
    intro htype htext
    rw [htype] at hconv
    obtain ⟨b, rfl⟩ := htext
    rcases toNative_string hconv with rfl | ⟨text, rfl⟩
    · exact ⟨_, rfl⟩
    · exact ⟨_, rfl⟩

lemma slots_finish_of_error {s : Session} {c : Call} {result : ManagedValue}
    {slots : List NativeValue} {e : CallError}
    (h : (s.finish c result slots).result = .error e) :
    (s.finish c result slots).slots = slots := by
  rw [finish] at h ⊢
  dsimp only at h ⊢
  split
  · rfl
  · rename_i heq
    rw [heq] at h
    dsimp only at h
    split
    · rfl
    · rename_i heq'
      rw [heq'] at h
      cases h

/-! ### The whole call -/

/-- A call that succeeds ran code that returned a value, and delivers it. -/
lemma exists_delivered (s : Session) {symbol : String} {slots : List NativeValue} {n : NativeValue}
    (hn : (s.invoke symbol slots).result = .ok n) :
    ∃ f c result, s.model.function? symbol = some f ∧ slots.length = f.arity ∧
      s.Ends f slots (.ok result) c ∧ c.function = f ∧
      Delivered s.model c result slots (s.invoke symbol slots) := by
  rcases s.invoke_cases symbol slots with ⟨_, hinvoke⟩ | ⟨f, hf, harity, hinvoke⟩
  · rw [hinvoke] at hn
    cases hn
  · rw [hinvoke] at hn ⊢
    rcases s.call_cases f slots with ⟨e, herror, _⟩ | ⟨c, result, hends, hcall⟩
    · rw [herror] at hn
      cases hn
    · obtain ⟨rfl, hlen⟩ := hends.spec harity
      rw [hcall] at hn ⊢
      exact ⟨_, c, result, hf, harity, hends, rfl, delivered_finish harity hlen hn⟩

/-- A call that fails leaves all slots alone.  One that succeeds ran code that returned a value,
and delivers that value and the values of the parameters passed by reference.  If the code
registered for the function fails, the call fails with its failure. -/
theorem invoke_all_or_nothing (s : Session) (symbol : String) (slots : List NativeValue) :
    (∀ e, (s.invoke symbol slots).result = .error e →
      (s.invoke symbol slots).slots = slots) ∧
    (∀ n, (s.invoke symbol slots).result = .ok n →
      ∃ f c result, s.model.function? symbol = some f ∧ slots.length = f.arity ∧
        s.Ends f slots (.ok result) c ∧ c.function = f ∧
        Delivered s.model c result slots (s.invoke symbol slots)) ∧
    (∀ f p start failure c, s.model.function? symbol = some f → slots.length = f.arity →
      s.implementation? f = some p → s.prepare f slots = .ok start →
      p.run start = (.error failure, c) →
        (s.invoke symbol slots).result = .error (.managed f.symbol failure)) := by
  refine ⟨?_, ?_, ?_⟩
  · intro e he
    rcases s.invoke_cases symbol slots with ⟨_, hinvoke⟩ | ⟨f, _, _, hinvoke⟩
    · rw [hinvoke]
    · rw [hinvoke] at he ⊢
      rcases s.call_cases f slots with ⟨_, _, hslots, _⟩ | ⟨c, result, _, hcall⟩
      · exact hslots
      · rw [hcall] at he ⊢
        exact slots_finish_of_error he
  · exact fun n hn => s.exists_delivered hn
  · intro f p start failure c hf harity himpl hstart hrun
    obtain ⟨hfunction, _⟩ := prepare_spec harity hstart
    have hend : s.dispatch start = some (.error failure, c) := by
      rw [dispatch, hfunction, himpl]
      exact congrArg some hrun
    have hinvoke : s.invoke symbol slots = s.call f slots := by
      simp only [invoke, hf, if_pos harity]
    rw [hinvoke]
    exact call_of_ends_error ⟨start, hstart, hend⟩

end Session

end Interop
