/-
# Calls through slots

A call through slots checks and reads all of them before it reaches the managed side, and writes to
the storage of the caller at the very end.  Because the kinds of slots are compared with the
parameters before the call, no value that comes back can fail to fit its slot.  So a call that
reports an invalid argument has not run any code, and one that fails leaves all storage alone.

Main result: `slots_all_or_nothing`.
-/
import Interop.Proofs.Session.SlotChecks

namespace Interop

open Model Native Managed Marshal Session

namespace Abi

/-! ### Calls of the managed side -/

/-- A call through slots reaches the managed side, as a call of a function with some values. -/
structure Passed (m : BindingModel) (symbol : String) (slots : List Slot) (f : NativeFunction)
    (values : List NativeValue) : Prop where
  function : m.function? symbol = some f
  arity : slots.length = f.arity
  kinds : checkKinds m 0 (slots.zip (slotParams f)) = .ok ()
  values : decodeAll 0 (slots.zip ((slotParams f).map slotDirection)) = .ok values

/-- What a call leaves in the slots of the caller whose code ended in the state `c`.  The slot of
each parameter passed by reference points to storage of the kind of the parameter, and the storage
now holds the native form of the value that the code gave the parameter; the other slots are as
they were. -/
structure Stores (m : BindingModel) (s' : Session) (c : Call) (slots slots' : List Slot) :
    Prop where
  byRef : ∀ (i : Nat) (p : BoundParam), c.function.params[i]? = some p → p.direction ≠ .input →
    ∃ kind old new v n, nativeKind m p.type = .ok kind ∧
      slots[slotOf c.function i]? = some ⟨kind.code, .byRef (some old)⟩ ∧
      slots'[slotOf c.function i]? = some ⟨kind.code, .byRef (some new)⟩ ∧
      c.arguments[i]? = some v ∧
      toNative m s'.heap p.type s'.handles v = (.ok n, s'.handles) ∧ new.Holds kind n
  other : ∀ j : Nat, (∀ (i : Nat) (p : BoundParam), c.function.params[i]? = some p →
    p.direction ≠ .input → j ≠ slotOf c.function i) → slots'[j]? = slots[j]?

/-- The status of a call that fails on the managed side is not that of a bad slot. -/
lemma status_callError (e : CallError) : e.status ≠ .ok ∧ e.status ≠ .invalidArgument := by
  cases e <;> exact ⟨nofun, nofun⟩

lemma status_failure_ne_ok (e : Failure) : e.status ≠ .ok := by
  cases e with
  | call e => exact (status_callError e).1
  | _ => exact nofun

/-- What is written to a slot when a call succeeds. -/
def written (x : Slot × Direction) (v : NativeValue) : Slot :=
  if x.2.isByRef then writeThrough x.1 v else x.1

namespace Passed

variable {m : BindingModel} {symbol : String} {slots : List Slot} {f : NativeFunction}
  {values : List NativeValue} (h : Passed m symbol slots f values)

include h

lemma length_values : values.length = slots.length := by
  rw [(of_decodeAll _ h.values).1, List.length_zip, List.length_map, length_slotParams, h.arity,
    Nat.min_self]

/-- The slot of a parameter passed by reference points to storage of the kind of the parameter. -/
lemma exists_storage (hsound : ∀ slot ∈ slots, slot.isSound = true) {i : Nat} {p : BoundParam}
    (hp : f.params[i]? = some p) (hp' : p.direction.isByRef = true) {v : NativeValue}
    (hv : values[slotOf f i]? = some v) :
    ∃ kind storage, nativeKind m p.type = .ok kind ∧
      slots[slotOf f i]? = some ⟨kind.code, .byRef (some storage)⟩ ∧
      Storage.isOf kind storage = true ∧ (kind = .string ↔ ∃ b, v = .text b) := by
  obtain ⟨slot, hslot⟩ := exists_slot h.arity hp
  have hparam : (slotParams f)[slotOf f i]? = some (some p) := by
    rw [slotParams_slotOf, hp, Option.map_some]
  have hchecked : (slot, some p) ∈ slots.zip (slotParams f) :=
    List.mem_of_getElem? (List.getElem?_zip_eq_some.mpr ⟨hslot, hparam⟩)
  obtain ⟨kind, hkind, hcode⟩ := kind_of_checkKinds _ h.kinds slot p hchecked hp'
  have hdirected : (slots.zip ((slotParams f).map slotDirection))[slotOf f i]? =
      some (slot, p.direction) := by
    rw [List.getElem?_zip_eq_some, List.getElem?_map, hparam]
    exact ⟨hslot, rfl⟩
  have hread := (of_decodeAll _ h.values).2 _ _ _ _ hdirected hv
  obtain ⟨storage, rfl, hstorage, htext⟩ := exists_storage_of_decode hp' hcode
    (hsound _ (List.mem_of_getElem? hslot)) hread
  exact ⟨kind, storage, hkind, hslot, hstorage, htext⟩

/-- After a call that succeeded, the value that is to be written to a slot fits it, and will be held
by the storage there. -/
lemma fits_of_delivered {a : Source.Assembly} (hm : m = .ofAssembly a)
    (hsound : ∀ slot ∈ slots, slot.isSound = true) {c : Call} {result : ManagedValue}
    {out : CallOutcome} (hfunction : c.function = f) (hout : Delivered m c result values out)
    {i : Nat} {p : BoundParam} (hp : f.params[i]? = some p) (hdirection : p.direction ≠ .input) :
    ∃ kind storage v n new, nativeKind m p.type = .ok kind ∧
      slots[slotOf f i]? = some ⟨kind.code, .byRef (some storage)⟩ ∧
      out.slots[slotOf f i]? = some new ∧ c.arguments[i]? = some v ∧
      toNative m out.session.heap p.type out.session.handles v = (.ok n, out.session.handles) ∧
      fitsSlot kind.code new = true ∧ (writeStorage storage new).Holds kind n := by
  subst hfunction
  obtain ⟨old, v, n, new, hold, hv, hn, hnew, hwrote, _⟩ := hout.byRef i p hp hdirection
  have hbyRef : p.direction.isByRef = true := isByRef_of_ne_input hdirection
  have hone : m.PassesOne p.type := by
    have hmem := (BindingModel.mem_of_function? h.function).1
    subst hm
    exact ((passes_of_mem_functions hmem).1 p (List.mem_of_getElem? hp)).2 hbyRef
  obtain ⟨kind, storage, hkind, hslot, hstorage, htext⟩ :=
    h.exists_storage hsound hp hbyRef hold
  exact ⟨kind, storage, v, n, new, hkind, hslot, hnew, hv, hn,
    fits_and_holds hone hkind hn hwrote htext hstorage⟩

/-- After a call that succeeded, all values fit their slots. -/
lemma checkFit_of_delivered {a : Source.Assembly} (hm : m = .ofAssembly a)
    (hsound : ∀ slot ∈ slots, slot.isSound = true) {c : Call} {result : ManagedValue}
    {out : CallOutcome} (hfunction : c.function = f) (hout : Delivered m c result values out) :
    checkFit 0 ((slots.zip ((slotParams f).map slotDirection)).zip out.slots) = .ok () := by
  refine checkFit_eq_ok _ ?_
  rintro ⟨⟨slot, d⟩, v⟩ hmem hd
  obtain ⟨j, hj⟩ := List.getElem?_of_mem hmem
  obtain ⟨hdirected, hv⟩ := List.getElem?_zip_eq_some.mp hj
  obtain ⟨hslot, q, hq, rfl⟩ := getElem?_directed.mp hdirected
  cases q with
  | none => cases hd
  | some p =>
    obtain ⟨i, rfl, hp⟩ := exists_slotOf hq
    obtain ⟨kind, storage, _, n, new, _, hslot', hnew, _, _, hfits, _⟩ :=
      h.fits_of_delivered hm hsound hfunction hout hp (ne_input_of_isByRef hd)
    rw [hslot] at hslot'
    rw [hnew] at hv
    cases hslot'
    cases hv
    exact hfits

/-- A call that succeeded stores the values of the parameters passed by reference. -/
lemma stores_of_delivered {a : Source.Assembly} (hm : m = .ofAssembly a)
    (hsound : ∀ slot ∈ slots, slot.isSound = true) {c : Call} {result : ManagedValue}
    {out : CallOutcome} (hfunction : c.function = f) (hout : Delivered m c result values out) :
    Stores m out.session c slots
      ((slots.zip ((slotParams f).map slotDirection)).zipWith written out.slots) := by
  subst hfunction
  refine ⟨?_, ?_⟩
  · intro i p hp hdirection
    obtain ⟨kind, storage, v, n, new, hkind, hslot, hnew, hv, hn, _, hholds⟩ :=
      h.fits_of_delivered hm hsound rfl hout hp hdirection
    refine ⟨kind, storage, writeStorage storage new, v, n, hkind, hslot, ?_, hv, hn, hholds⟩
    have hdirected : (slots.zip ((slotParams c.function).map slotDirection))[slotOf c.function i]? =
        some (⟨kind.code, .byRef (some storage)⟩, p.direction) :=
      getElem?_directed.mpr ⟨hslot, some p, by rw [slotParams_slotOf, hp, Option.map_some], rfl⟩
    rw [List.getElem?_zipWith, hdirected, hnew]
    simp only [written, isByRef_of_ne_input hdirection, writeThrough, if_true]
  · intro j hj
    rw [List.getElem?_zipWith]
    cases hslot : slots[j]? with
    | none =>
      have hnone : (slots.zip ((slotParams c.function).map slotDirection))[j]? = none := by
        rw [List.getElem?_eq_none_iff] at hslot ⊢
        rw [List.length_zip]
        omega
      rw [hnone]
    | some slot =>
      obtain ⟨hlt, _⟩ := List.getElem?_eq_some_iff.mp hslot
      obtain ⟨q, hparam⟩ : ∃ q, (slotParams c.function)[j]? = some q :=
        ⟨_, List.getElem?_eq_getElem (by rwa [length_slotParams, ← h.arity])⟩
      obtain ⟨v, hv⟩ : ∃ v, out.slots[j]? = some v :=
        ⟨_, List.getElem?_eq_getElem (by rwa [hout.length, h.length_values])⟩
      have hdirected := (getElem?_directed (x := (slot, slotDirection q))).mpr
        ⟨hslot, q, hparam, rfl⟩
      have hinput : slotDirection q = .input := by
        cases q with
        | none => rfl
        | some p =>
          obtain ⟨i, hi, hp⟩ := exists_slotOf hparam
          by_contra hnot
          exact hj i p hp hnot hi
      rw [hdirected, hv]
      simp only [written, hinput]
      rfl

end Passed

/-- A call through slots fails before it reaches the managed side, for a reason that only the model
and the slots matter for, or it reaches the managed side. -/
lemma refused_or_passed (m : BindingModel) (symbol : String) (slots : List Slot) :
    (∃ failure : Failure, (∀ f values, ¬ Passed m symbol slots f values) ∧
      (∀ i kind v, failure ≠ .unfit i kind v) ∧
      ∀ s : Session, s.model = m → invokeSlots s symbol slots = ⟨s, .error failure, slots⟩) ∨
    ∃ f values, Passed m symbol slots f values := by
  cases hf : m.function? symbol with
  | none =>
    refine Or.inl ⟨.call (.unknownSymbol symbol), ?_, ?_, ?_⟩
    · intro f values h
      cases hf.symm.trans h.function
    · intro i kind v h
      cases h
    · rintro s rfl
      simp only [invokeSlots, hf]
  | some f =>
    have huniq : ∀ {f' values}, Passed m symbol slots f' values → f' = f := by
      intro f' values h
      exact Option.some.inj (h.function.symm.trans hf)
    by_cases harity : slots.length = f.arity
    · cases hkinds : checkKinds m 0 (slots.zip (slotParams f)) with
      | error e =>
        refine Or.inl ⟨e, ?_, ?_, ?_⟩
        · intro f' values h
          obtain rfl := huniq h
          cases hkinds.symm.trans h.kinds
        · exact fun i kind v h => unfit_ne_checkKinds _ (h ▸ hkinds)
        · rintro s rfl
          simp only [invokeSlots, hf, if_pos harity, hkinds]
      | ok =>
        cases hvalues : decodeAll 0 (slots.zip ((slotParams f).map slotDirection)) with
        | error e =>
          refine Or.inl ⟨e, ?_, ?_, ?_⟩
          · intro f' values h
            obtain rfl := huniq h
            cases hvalues.symm.trans h.values
          · exact fun i kind v h => unfit_ne_decodeAll _ (h ▸ hvalues)
          · rintro s rfl
            simp only [invokeSlots, hf, if_pos harity, hkinds, hvalues]
        | ok values => exact Or.inr ⟨f, values, hf, harity, hkinds, hvalues⟩
    · refine Or.inl ⟨.call (.arity symbol f.arity slots.length), ?_, ?_, ?_⟩
      · intro f' values h
        obtain rfl := huniq h
        exact harity h.arity
      · intro i kind v h
        cases h
      · rintro s rfl
        simp only [invokeSlots, hf, if_neg harity]

lemma invokeSlots_error {s : Session} {symbol : String} {slots : List Slot} {f : NativeFunction}
    {values : List NativeValue} {e : CallError} (h : Passed s.model symbol slots f values)
    (he : (s.invoke symbol values).result = .error e) :
    invokeSlots s symbol slots = ⟨(s.invoke symbol values).session, .error (.call e), slots⟩ := by
  simp only [invokeSlots, h.function, if_pos h.arity, h.kinds, h.values, he]

lemma invokeSlots_ok {s : Session} {symbol : String} {slots : List Slot} {f : NativeFunction}
    {values : List NativeValue} {n : NativeValue} (h : Passed s.model symbol slots f values)
    (hn : (s.invoke symbol values).result = .ok n)
    (hfit : checkFit 0 ((slots.zip ((slotParams f).map slotDirection)).zip
      (s.invoke symbol values).slots) = .ok ()) :
    invokeSlots s symbol slots = ⟨(s.invoke symbol values).session, .ok n,
      (slots.zip ((slotParams f).map slotDirection)).zipWith written
        (s.invoke symbol values).slots⟩ := by
  simp only [invokeSlots, h.function, if_pos h.arity, h.kinds, h.values, hn, hfit]
  rfl

/-- A call that reaches the managed side fails there and leaves all slots alone, or it succeeds and
stores the values of the parameters passed by reference. -/
lemma failed_or_stored {a : Source.Assembly} {s : Session} (hs : s.model = .ofAssembly a)
    {symbol : String} {slots : List Slot} (hsound : ∀ slot ∈ slots, slot.isSound = true)
    {f : NativeFunction} {values : List NativeValue} (h : Passed s.model symbol slots f values) :
    (∃ e s', invokeSlots s symbol slots = ⟨s', .error (.call e), slots⟩) ∨
    ∃ c result n s' slots', s.Ends f values (.ok result) c ∧ c.function = f ∧
      toNative s.model s'.heap f.returns s'.handles (returned c result) = (.ok n, s'.handles) ∧
      invokeSlots s symbol slots = ⟨s', .ok n, slots'⟩ ∧ Stores s.model s' c slots slots' := by
  cases hr : (s.invoke symbol values).result with
  | error e => exact Or.inl ⟨e, _, invokeSlots_error h hr⟩
  | ok n =>
    obtain ⟨f', c, result, hf', _, hends, hfunction, hout⟩ := s.exists_delivered hr
    obtain rfl := Option.some.inj (hf'.symm.trans h.function)
    obtain ⟨n', hn', hreturns⟩ := hout.returns
    obtain rfl := Except.ok.inj (hr.symm.trans hn')
    rw [hfunction] at hreturns
    generalize hnew : s.invoke symbol values = out at hr hout hreturns
    refine Or.inr ⟨c, result, n, out.session, _, hends, hfunction, hreturns, ?_,
      h.stores_of_delivered hs hsound hfunction hout⟩
    subst hnew
    exact invokeSlots_ok h hr (h.checkFit_of_delivered hs hsound hfunction hout)

end Abi

namespace Endpoint

open Abi

/-- A call at an entry point reaches the managed side: symbol and slots are there, and there is a
session that they are passed on to. -/
structure Reaches (e : Endpoint) (symbol : Option ConstText) (args : Arguments) (s : Session)
    (f : NativeFunction) (values : List NativeValue) : Prop where
  session : e.session = some s
  present : ∀ count, args = .null count → count = 0
  passed : ∃ text name, symbol = some text ∧ Text.ofUtf8 text.octets = .ok name ∧
    Passed s.model name args.toList f values

lemma cases_of_present {args : Arguments} (h : ∀ count, args = .null count → count = 0) :
    (∃ ss, args = .slots ss) ∨ args = .null 0 := by
  cases args with
  | slots ss => exact Or.inl ⟨ss, rfl⟩
  | null count => exact Or.inr (by rw [h count rfl])

section

variable {e : Endpoint} {s : Session} {args : Arguments} {text : ConstText} {name : String}
  (hs : e.session = some s) (hpresent : ∀ count, args = .null count → count = 0)
  (hname : Text.ofUtf8 text.octets = .ok name)

include hs hpresent hname

lemma invoke_of_ok {n : NativeValue} (h : (invokeSlots s name args.toList).result = .ok n) :
    e.invoke (some text) args =
      ⟨⟨some (invokeSlots s name args.toList).session, none⟩, .ok, some (encode n),
        (invokeSlots s name args.toList).slots⟩ := by
  rcases cases_of_present hpresent with ⟨ss, rfl⟩ | rfl <;> simp [invoke, hname, hs, h]

lemma invoke_of_error {failure : Failure}
    (h : (invokeSlots s name args.toList).result = .error failure) :
    e.invoke (some text) args =
      ⟨⟨some (invokeSlots s name args.toList).session, some (errorText failure.message)⟩,
        failure.status, none, (invokeSlots s name args.toList).slots⟩ := by
  rcases cases_of_present hpresent with ⟨ss, rfl⟩ | rfl <;> simp [invoke, hname, hs, h]

end

/-- A call at an entry point is refused: it fails before it reaches the managed side, and any other
managed side of the same model would fail in the same way. -/
def Refused (e : Endpoint) (symbol : Option ConstText) (args : Arguments) : Prop :=
  ∃ status text, status ≠ .ok ∧ (∀ s f values, ¬ e.Reaches symbol args s f values) ∧
    ∀ e' : Endpoint, e'.session.map (·.model) = e.session.map (·.model) →
      e'.invoke symbol args = ⟨{ e' with lastError := some text }, status, none, args.toList⟩

lemma refused_or_reaches (e : Endpoint) (symbol : Option ConstText) (args : Arguments) :
    e.Refused symbol args ∨ ∃ s f values, e.Reaches symbol args s f values := by
  cases symbol with
  | none =>
    refine Or.inl ⟨.invalidArgument, errorText "null symbol or argument array", nofun, ?_, ?_⟩
    · rintro s f values ⟨_, _, text, name, h, _⟩
      cases h
    · exact fun _ _ => rfl
  | some text =>
    by_cases hpresent : ∀ count, args = .null count → count = 0
    · cases hname : Text.ofUtf8 text.octets with
      | error fault =>
        refine Or.inl ⟨.invalidArgument, errorText "symbol is not valid UTF-8", nofun, ?_, ?_⟩
        · rintro s f values ⟨_, _, text', name, h, hname', _⟩
          cases h
          cases hname.symm.trans hname'
        · intro e' _
          rcases cases_of_present hpresent with ⟨ss, rfl⟩ | rfl <;> simp [invoke, refuse, hname]
      | ok name =>
        cases hs : e.session with
        | none =>
          refine Or.inl ⟨.noRuntime, errorText "no runtime is installed on this thread", nofun,
            ?_, ?_⟩
          · rintro s f values ⟨hs', _⟩
            cases hs.symm.trans hs'
          · intro e' he'
            have hs' : e'.session = none := by simpa [hs] using he'
            rcases cases_of_present hpresent with ⟨ss, rfl⟩ | rfl <;>
              simp [invoke, refuse, hname, hs']
        | some s =>
          rcases refused_or_passed s.model name args.toList with
            ⟨failure, hnot, _, hrefused⟩ | ⟨f, values, hpassed⟩
          · refine Or.inl ⟨failure.status, errorText failure.message, status_failure_ne_ok failure,
              ?_, ?_⟩
            · rintro s' f values ⟨hs', _, text', name', h, hname', hpassed⟩
              cases h
              cases hs.symm.trans hs'
              cases hname.symm.trans hname'
              exact hnot f values hpassed
            · intro e' he'
              obtain ⟨s', hs', hm⟩ := Option.map_eq_some_iff.mp (he'.trans (by rw [hs]; rfl))
              have hfailed := hrefused s' hm
              rw [invoke_of_error hs' hpresent hname (by rw [hfailed]), hfailed, ← hs']
          · exact Or.inr ⟨s, f, values, hs, hpresent, text, name, rfl, hname, hpassed⟩
    · refine Or.inl ⟨.invalidArgument, errorText "null symbol or argument array", nofun, ?_, ?_⟩
      · rintro s f values ⟨_, h, _⟩
        exact hpresent h
      · intro e' _
        cases args with
        | slots ss => exact absurd nofun hpresent
        | null count =>
          have hcount : 0 < count := by
            by_contra hnot
            exact hpresent fun _ h => by cases h; omega
          simp [invoke, refuse, hcount]

/-- A call that reaches the managed side fails there and leaves all slots alone, or it succeeds. -/
lemma failed_or_succeeded {a : Source.Assembly} {e : Endpoint} {symbol : Option ConstText}
    {args : Arguments} {s : Session} {f : NativeFunction} {values : List NativeValue}
    (hs : s.model = .ofAssembly a) (hsound : ∀ slot ∈ args.toList, slot.isSound = true)
    (h : e.Reaches symbol args s f values) :
    (∃ e' failure, e.invoke symbol args = ⟨e', CallError.status failure, none, args.toList⟩) ∨
    ∃ c result n s' slots', s.Ends f values (.ok result) c ∧ c.function = f ∧
      toNative s.model s'.heap f.returns s'.handles (returned c result) = (.ok n, s'.handles) ∧
      e.invoke symbol args = ⟨⟨some s', none⟩, .ok, some (encode n), slots'⟩ ∧
      Stores s.model s' c args.toList slots' := by
  obtain ⟨hsession, hpresent, text, name, rfl, hname, hpassed⟩ := h
  rcases failed_or_stored hs hsound hpassed with
    ⟨failure, s', hfailed⟩ | ⟨c, result, n, s', slots', hends, hfunction, hn, hok, hstores⟩
  · refine Or.inl ⟨⟨some s', some (errorText (Failure.call failure).message)⟩, failure, ?_⟩
    rw [invoke_of_error hsession hpresent hname (by rw [hfailed]), hfailed]
    rfl
  · refine Or.inr ⟨c, result, n, s', slots', hends, hfunction, hn, ?_, hstores⟩
    rw [invoke_of_ok hsession hpresent hname (by rw [hok]), hok]

/-- At an entry point that serves a bound model, with slots that point to storage of their kinds:

A call that does not succeed leaves the storage of the caller and the slot for the result alone.
One that reports an invalid argument did not reach the managed side, which is as it was; whatever
code, objects and values the managed side had held, the outcome would have been the same.  It never
happens that a final value does not fit its slot.  A call that succeeds ran code that returned; its
result is the native form of what that returned, and of the storage of the caller only that of the
parameters passed by reference has changed, which holds the native forms of their final values. -/
theorem slots_all_or_nothing (a : Source.Assembly) (e : Endpoint)
    (he : ∀ s, e.session = some s → s.model = .ofAssembly a) (symbol : Option ConstText)
    (args : Arguments) (hsound : ∀ slot ∈ args.toList, slot.isSound = true) :
    ((e.invoke symbol args).status ≠ .ok →
      (e.invoke symbol args).result = none ∧ (e.invoke symbol args).slots = args.toList) ∧
    ((e.invoke symbol args).status = .invalidArgument →
      (e.invoke symbol args).endpoint.session = e.session ∧
      (∀ s f values, ¬ e.Reaches symbol args s f values) ∧
      ∀ e' : Endpoint, e'.session.map (·.model) = e.session.map (·.model) →
        e'.invoke symbol args =
          { e.invoke symbol args with
            endpoint := { (e.invoke symbol args).endpoint with session := e'.session } }) ∧
    (∀ s name i kind v, e.session = some s →
      (invokeSlots s name args.toList).result ≠ .error (.unfit i kind v)) ∧
    ((e.invoke symbol args).status = .ok →
      ∃ s f values c result n s', e.Reaches symbol args s f values ∧
        s.Ends f values (.ok result) c ∧ c.function = f ∧
        (e.invoke symbol args).endpoint.session = some s' ∧
        toNative s.model s'.heap f.returns s'.handles (returned c result) = (.ok n, s'.handles) ∧
        (e.invoke symbol args).result = some (encode n) ∧
        Stores s.model s' c args.toList (e.invoke symbol args).slots) := by
  refine ⟨?_, ?_, ?_, ?_⟩
  · intro hstatus
    rcases e.refused_or_reaches symbol args with ⟨status, text, _, _, h⟩ | ⟨s, f, values, h⟩
    · rw [h e rfl]
      exact ⟨rfl, rfl⟩
    · rcases failed_or_succeeded (he s h.session) hsound h with
        ⟨_, _, hfailed⟩ | ⟨_, _, _, _, _, _, _, _, hok, _⟩
      · rw [hfailed]
        exact ⟨rfl, rfl⟩
      · rw [hok] at hstatus
        exact absurd rfl hstatus
  · intro hstatus
    rcases e.refused_or_reaches symbol args with ⟨status, text, _, hnot, h⟩ | ⟨s, f, values, h⟩
    · refine ⟨by rw [h e rfl], hnot, ?_⟩
      intro e' he'
      rw [h e' he', h e rfl]
    · -- the managed side never reports an invalid argument
      rcases failed_or_succeeded (he s h.session) hsound h with
        ⟨_, failure, hfailed⟩ | ⟨_, _, _, _, _, _, _, _, hok, _⟩
      · rw [hfailed] at hstatus
        exact absurd hstatus (status_callError failure).2
      · rw [hok] at hstatus
        cases hstatus
  · intro s name i kind v hs hunfit
    rcases refused_or_passed s.model name args.toList with ⟨failure, _, hne, h⟩ | ⟨f, values, h⟩
    · rw [h s rfl] at hunfit
      exact hne i kind v (Except.error.inj hunfit)
    · rcases failed_or_stored (he s hs) hsound h with
        ⟨_, _, hfailed⟩ | ⟨_, _, _, _, _, _, _, _, hok, _⟩
      · rw [hfailed] at hunfit
        cases hunfit
      · rw [hok] at hunfit
        cases hunfit
  · intro hstatus
    rcases e.refused_or_reaches symbol args with ⟨status, text, hne, _, h⟩ | ⟨s, f, values, h⟩
    · rw [h e rfl] at hstatus
      exact absurd hstatus hne
    · rcases failed_or_succeeded (he s h.session) hsound h with
        ⟨_, failure, hfailed⟩ | ⟨c, result, n, s', slots', hends, hfunction, hn, hok, hstores⟩
      · rw [hfailed] at hstatus
        exact absurd hstatus (status_callError failure).1
      · rw [hok]
        exact ⟨s, f, values, c, result, n, s', h, hends, hfunction, rfl, hn, rfl, hstores⟩

/-- A number that is kept, and a text that is written into an empty buffer. -/
theorem slots_all_or_nothing_text :
    ∃ a, Source.Assembly.ofText ("public class A \x7b " ++
        "public static void f(ref int number, out string text); \x7d") = .ok a ∧
      let e : Endpoint := ⟨some ((ofModel (.ofAssembly a)).define ⟨[], "A"⟩
        "f(ref int, out string)" (.setArgument 1 (.string "hi") (.done (.ok .null)))), none⟩
      let slots (t : TextBuffer) : List Slot :=
        [⟨Kind.code (.scalar .int32), .byRef (some (.word 5))⟩,
          ⟨Kind.string.code, .byRef (some (.text t))⟩]
      (∀ slot ∈ slots .empty, slot.isSound = true) ∧
        (e.invoke (some (.ofText "A_f")) (.slots (slots .empty))).status = .ok ∧
        (e.invoke (some (.ofText "A_f")) (.slots (slots .empty))).slots = slots (.ofText "hi") ∧
        ∃ s f values c s', e.Reaches (some (.ofText "A_f")) (.slots (slots .empty)) s f values ∧
          Stores s.model s' c (slots .empty) (slots (.ofText "hi")) := by
  have hrun : (Source.Assembly.ofText ("public class A \x7b " ++
      "public static void f(ref int number, out string text); \x7d")).toOption.any (fun a =>
        let e : Endpoint := ⟨some ((ofModel (.ofAssembly a)).define ⟨[], "A"⟩
          "f(ref int, out string)" (.setArgument 1 (.string "hi") (.done (.ok .null)))), none⟩
        let slots (t : TextBuffer) : List Slot :=
          [⟨Kind.code (.scalar .int32), .byRef (some (.word 5))⟩,
            ⟨Kind.string.code, .byRef (some (.text t))⟩]
        decide ((e.invoke (some (.ofText "A_f")) (.slots (slots .empty))).status = .ok) &&
          decide ((e.invoke (some (.ofText "A_f")) (.slots (slots .empty))).slots =
            slots (.ofText "hi"))) = true := by
    decide +kernel
  obtain ⟨a, ha, hcall⟩ := Source.Assembly.exists_of_any hrun
  simp only [Bool.and_eq_true, decide_eq_true_iff] at hcall
  obtain ⟨hstatus, hslots⟩ := hcall
  have hsound : ∀ slot ∈ ([⟨Kind.code (.scalar .int32), .byRef (some (.word 5))⟩,
      ⟨Kind.string.code, .byRef (some (.text .empty))⟩] : List Slot), slot.isSound = true := by
    decide
  obtain ⟨s, f, values, c, _, _, s', hreaches, _, _, _, _, _, hstores⟩ :=
    (slots_all_or_nothing a _ (by rintro s ⟨⟩; rfl) _ (.slots _) hsound).2.2.2 hstatus
  rw [hslots] at hstores
  exact ⟨a, ha, hsound, hstatus, hslots, s, f, values, c, s', hreaches, hstores⟩

end Endpoint

end Interop
