/-
# What out slots hold does not matter

An out parameter begins with the default value of its type, whatever its slot holds, and in the end
its slot is written over.  Of what it held only the form is kept: a text buffer stays one.  So two
calls whose slots differ only in what those of out parameters hold cannot be told apart, neither by
the code that runs nor by what they leave.

Main result: `invoke_congr_out`.
-/
import Interop.Managed.Script
import Interop.Model.Binding
import Interop.Proofs.Session.AllOrNothing
import Interop.Source.Parser

namespace Interop

open Model Native Managed Marshal

namespace Session

/-- Two lists of slots differ only in what the slots of out parameters hold, and such a slot is a
text buffer in both lists or in neither. -/
structure AgreeButOut (f : NativeFunction) (slots slots' : List NativeValue) : Prop where
  length : slots.length = slots'.length
  others : ∀ k, (∀ i p, f.params[i]? = some p → p.direction = .out → k ≠ slotOf f i) →
    slots[k]? = slots'[k]?
  text : ∀ i p, f.params[i]? = some p → p.direction = .out →
    ((∃ b, slots[slotOf f i]? = some (.text b)) ↔ ∃ b, slots'[slotOf f i]? = some (.text b))

namespace AgreeButOut

variable {f : NativeFunction} {slots slots' : List NativeValue}

lemma head? (h : AgreeButOut f slots slots') (hhandle : f.takesHandle = true) :
    slots.head? = slots'.head? := by
  rw [List.head?_eq_getElem?, List.head?_eq_getElem?]
  refine h.others 0 fun i p _ _ => ?_
  rw [slotOf, if_pos hhandle]
  omega

lemma slot (h : AgreeButOut f slots slots') {i : Nat} {p : BoundParam} (hp : f.params[i]? = some p)
    (hnot : p.direction ≠ .out) : slots[slotOf f i]? = slots'[slotOf f i]? := by
  refine h.others _ fun j q hq hout hplace => hnot ?_
  obtain rfl : i = j := Nat.add_right_cancel hplace
  rw [hp] at hq
  rw [Option.some.inj hq, hout]

/-- To give the slot of an out parameter another value of the same form. -/
lemma set {i : Nat} {p : BoundParam} {old new : NativeValue} (hp : f.params[i]? = some p)
    (hout : p.direction = .out) (hold : slots[slotOf f i]? = some old)
    (htext : (∃ b, old = .text b) ↔ ∃ b, new = .text b) :
    AgreeButOut f slots (slots.set (slotOf f i) new) where
  length := List.length_set.symm
  others k hk := (List.getElem?_set_ne (hk i p hp hout).symm).symm
  text j q _ _ := by
    by_cases hplace : slotOf f i = slotOf f j
    · obtain ⟨hlt, _⟩ := List.getElem?_eq_some_iff.mp hold
      rw [← hplace, hold, List.getElem?_set_self hlt]
      simpa only [Option.some.injEq] using htext
    · rw [List.getElem?_set_ne hplace]

end AgreeButOut

/-! ### The start of a call -/

lemma readArguments_cons_out {m : BindingModel} {t : HandleTable} {p : BoundParam}
    (h : p.direction = .out) (slot slot' : NativeValue) (rest : List (BoundParam × NativeValue))
    (heap : Heap) :
    readArguments m t heap ((p, slot) :: rest) = readArguments m t heap ((p, slot') :: rest) := by
  simp only [readArguments, h]

lemma readArguments_cons_congr {m : BindingModel} {t : HandleTable}
    (head : BoundParam × NativeValue) {rest rest' : List (BoundParam × NativeValue)}
    (h : ∀ heap, readArguments m t heap rest = readArguments m t heap rest') (heap : Heap) :
    readArguments m t heap (head :: rest) = readArguments m t heap (head :: rest') := by
  rw [readArguments, readArguments]
  simp only [h]

/-- The slots of out parameters are not read. -/
lemma readArguments_congr {m : BindingModel} {t : HandleTable} (ps : List BoundParam) :
    ∀ {own own' : List NativeValue}, own.length = own'.length →
      (∀ (i : Nat) (p : BoundParam), ps[i]? = some p → p.direction ≠ .out → own[i]? = own'[i]?) →
        ∀ heap, readArguments m t heap (ps.zip own) = readArguments m t heap (ps.zip own') := by
  induction ps with
  | nil => exact fun _ _ _ => rfl
  | cons p ps ih =>
    intro own own' hlen hsame heap
    cases own with
    | nil =>
      rw [List.length_eq_zero_iff.mp hlen.symm]
    | cons slot own =>
      cases own' with
      | nil => cases hlen
      | cons slot' own' =>
        have hrest := ih (Nat.succ.inj hlen) fun i q hq hnot => hsame (i + 1) q hq hnot
        rw [List.zip_cons_cons, List.zip_cons_cons, readArguments_cons_congr _ hrest]
        by_cases hout : p.direction = .out
        · exact readArguments_cons_out hout ..
        · obtain rfl : slot = slot' := Option.some.inj (hsame 0 p rfl hout)
          rfl

lemma receiver_congr {s : Session} {f : NativeFunction} {slot slot' : Option NativeValue}
    (h : f.takesHandle = true → slot = slot') : s.receiver f slot = s.receiver f slot' := by
  by_cases hhandle : f.takesHandle = true
  · rw [h hhandle]
  · rw [receiver, receiver, if_neg hhandle, if_neg hhandle]

/-- The code of the member begins in the same state. -/
lemma prepare_congr (s : Session) {f : NativeFunction} {slots slots' : List NativeValue}
    (h : AgreeButOut f slots slots') : s.prepare f slots = s.prepare f slots' := by
  have hread : ∀ heap,
      readArguments s.model s.handles heap
          (f.params.zip (if f.takesHandle then slots.tail else slots)) =
        readArguments s.model s.handles heap
          (f.params.zip (if f.takesHandle then slots'.tail else slots')) := by
    refine readArguments_congr f.params ?_ ?_
    · split
      · rw [List.length_tail, List.length_tail, h.length]
      · exact h.length
    · intro i p hp hnot
      have hslot := h.slot hp hnot
      rw [slotOf] at hslot
      split
      · rename_i hhandle
        rw [List.getElem?_tail, List.getElem?_tail]
        rwa [if_pos hhandle] at hslot
      · rename_i hhandle
        rwa [if_neg hhandle] at hslot
  rw [prepare, prepare, receiver_congr h.head?]
  simp only [hread]

/-! ### The end of a call -/

/-- The slots do not matter for what a call returns and leaves on the managed side. -/
lemma finish_congr (s : Session) (c : Call) (result : ManagedValue)
    (slots slots' : List NativeValue) :
    (s.finish c result slots).result = (s.finish c result slots').result ∧
      (s.finish c result slots).session = (s.finish c result slots').session := by
  rw [finish, finish]
  dsimp only
  split
  · exact ⟨rfl, rfl⟩
  · split
    · exact ⟨rfl, rfl⟩
    · exact ⟨rfl, rfl⟩

/-- Of what a slot held only matters for what is written to it whether it is a text buffer. -/
lemma writeBack_congr {old old' : NativeValue} (h : (∃ b, old = .text b) ↔ ∃ b, old' = .text b)
    (v : NativeValue) : writeBack old v = writeBack old' v := by
  by_cases htext : ∃ b, old = .text b
  · obtain ⟨b', rfl⟩ := h.mp htext
    obtain ⟨b, rfl⟩ := htext
    cases v <;> rfl
  · have hplain : ∀ {old : NativeValue}, (¬∃ b, old = .text b) → writeBack old v = v := by
      intro old hnot
      cases old with
      | text b => exact absurd ⟨b, rfl⟩ hnot
      | _ => rfl
    rw [hplain htext, hplain (mt h.mpr htext)]

/-- If there is a value for the slot of each out parameter, the slots hold the same in the end. -/
lemma writeSlots_congr {f : NativeFunction} {slots slots' : List NativeValue}
    (hslots : slots.length = f.arity) (h : AgreeButOut f slots slots')
    {values : List (Option NativeValue)}
    (hvalues : ∀ (i : Nat) (p : BoundParam), f.params[i]? = some p → p.direction = .out →
      ∃ n, values[i]? = some (some n)) :
    writeSlots slots ((if f.takesHandle then [none] else []) ++ values) =
      writeSlots slots' ((if f.takesHandle then [none] else []) ++ values) := by
  refine List.ext_getElem? fun k => ?_
  by_cases hk : ∀ i p, f.params[i]? = some p → p.direction = .out → k ≠ slotOf f i
  · rw [writeSlots, writeSlots, List.getElem?_zipWith, List.getElem?_zipWith, h.others k hk]
  · push Not at hk
    obtain ⟨i, p, hp, hout, rfl⟩ := hk
    obtain ⟨n, hn⟩ := hvalues i p hp hout
    obtain ⟨old, hold⟩ := exists_slot hslots hp
    obtain ⟨old', hold'⟩ := exists_slot (h.length ▸ hslots) hp
    have htext := h.text i p hp hout
    rw [hold, hold'] at htext
    simp only [Option.some.injEq] at htext
    rw [writeSlots_slotOf hold hn, writeSlots_slotOf hold' hn]
    exact congrArg some (writeBack_congr htext n)

/-- A call that is finished with success leaves the same slots. -/
lemma slots_finish_congr {s : Session} {c : Call} {result : ManagedValue}
    {slots slots' : List NativeValue} (hslots : slots.length = c.function.arity)
    (h : AgreeButOut c.function slots slots') {n : NativeValue}
    (hn : (s.finish c result slots).result = .ok n) :
    (s.finish c result slots).slots = (s.finish c result slots').slots := by
  have hn' : (s.finish c result slots').result = .ok n := by
    rw [← (s.finish_congr c result slots slots').1, hn]
  obtain ⟨t, values, t', hreturns, hwrite, heq⟩ := finish_of_ok hn
  obtain ⟨t₂, values₂, t₂', hreturns₂, hwrite₂, heq₂⟩ := finish_of_ok hn'
  obtain rfl : t = t₂ := by
    rw [hreturns] at hreturns₂
    exact (Prod.mk.inj hreturns₂).2
  obtain rfl : values = values₂ := by
    rw [hwrite] at hwrite₂
    exact Except.ok.inj (Prod.mk.inj hwrite₂).1
  rw [heq, heq₂]
  refine writeSlots_congr hslots h fun i p hp hout => ?_
  obtain ⟨n, hvalue, _⟩ := ((writeArguments_spec _ hwrite).2 i p hp).2 (by rw [hout]; rfl)
  exact ⟨n, hvalue⟩

/-! ### The whole call -/

lemma call_congr (s : Session) {f : NativeFunction} {slots slots' : List NativeValue}
    (hslots : slots.length = f.arity) (h : AgreeButOut f slots slots') :
    (s.call f slots).result = (s.call f slots').result ∧
      (s.call f slots).session = (s.call f slots').session ∧
      ∀ n, (s.call f slots).result = .ok n →
        (s.call f slots).slots = (s.call f slots').slots := by
  rw [call, call, ← s.prepare_congr h]
  cases hstart : s.prepare f slots with
  | error e => exact ⟨rfl, rfl, fun n hn => by cases hn⟩
  | ok start =>
    dsimp only
    cases hend : s.dispatch start with
    | none => exact ⟨rfl, rfl, fun n hn => by cases hn⟩
    | some r =>
      obtain ⟨result, c⟩ := r
      cases result with
      | error failure => exact ⟨rfl, rfl, fun n hn => by cases hn⟩
      | ok result =>
        obtain ⟨rfl, _⟩ := Ends.spec ⟨start, hstart, hend⟩ hslots
        obtain ⟨hresult, hsession⟩ := s.finish_congr c result slots slots'
        exact ⟨hresult, hsession, fun n hn => slots_finish_congr hslots h hn⟩

/-- Two calls whose slots differ only in what those of out parameters hold, where each of these is a
text buffer in both calls or in neither, return the same value or fail in the same way, and leave
the same session.  If they return, they leave the same in all slots. -/
theorem invoke_congr_out (s : Session) {symbol : String} {f : NativeFunction}
    {slots slots' : List NativeValue} (hf : s.model.function? symbol = some f)
    (h : AgreeButOut f slots slots') :
    (s.invoke symbol slots).result = (s.invoke symbol slots').result ∧
      (s.invoke symbol slots).session = (s.invoke symbol slots').session ∧
      ∀ n, (s.invoke symbol slots).result = .ok n →
        (s.invoke symbol slots).slots = (s.invoke symbol slots').slots := by
  simp only [invoke, hf, ← h.length]
  split
  · rename_i hslots
    exact s.call_congr hslots h
  · exact ⟨rfl, rfl, fun n hn => by cases hn⟩

/-- A buffer for an out text that holds no text, and an empty one. -/
theorem invoke_congr_out_buffer :
    ∃ a f n, Source.Assembly.ofText
        "public class A \x7b public static void f(out string t, ref int n); \x7d" = .ok a ∧
      let s := (ofModel (.ofAssembly a)).define ⟨[], "A"⟩ "f(out string, ref int)"
        (.ofScript [.setArgument 0 (.string "text"), .setArgument 1 (.add 1 1)])
      let slots : List NativeValue := [.text (.ofOctets [255]), .scalar (.integer .int32 1 rfl)]
      let slots' : List NativeValue := [.text .empty, .scalar (.integer .int32 1 rfl)]
      s.model.function? "A_f" = some f ∧ AgreeButOut f slots slots' ∧
        (s.invoke "A_f" slots).result = .ok n ∧ (s.invoke "A_f" slots').result = .ok n ∧
        (s.invoke "A_f" slots).session = (s.invoke "A_f" slots').session ∧
        (s.invoke "A_f" slots).slots = (s.invoke "A_f" slots').slots := by
  have hrun : (Source.Assembly.ofText
      "public class A \x7b public static void f(out string t, ref int n); \x7d").toOption.any
        (fun a =>
          let s := (ofModel (.ofAssembly a)).define ⟨[], "A"⟩ "f(out string, ref int)"
            (.ofScript [.setArgument 0 (.string "text"), .setArgument 1 (.add 1 1)])
          let slots : List NativeValue := [.text (.ofOctets [255]), .scalar (.integer .int32 1 rfl)]
          (s.model.function? "A_f").any fun f => f.takesHandle = false &&
            f.params.head?.any (·.direction = .out) &&
            (s.invoke "A_f" slots).result.toOption.isSome) = true := by
    decide +kernel
  obtain ⟨a, ha, hcalls⟩ := Source.Assembly.exists_of_any hrun
  obtain ⟨f, hf, hcall⟩ := (Option.any_eq_true ..).mp hcalls
  simp only [Bool.and_eq_true, decide_eq_true_iff] at hcall
  obtain ⟨⟨hstatic, hparams⟩, hok⟩ := hcall
  obtain ⟨n, hn⟩ := exists_ok_of_isSome hok
  obtain ⟨p, hp, hout⟩ := (Option.any_eq_true ..).mp hparams
  have hplace : slotOf f 0 = 0 := by rw [slotOf, hstatic]; rfl
  have hagree : AgreeButOut f [.text (.ofOctets [255]), .scalar (.integer .int32 1 rfl)]
      [.text .empty, .scalar (.integer .int32 1 rfl)] := by
    have hset := AgreeButOut.set (List.head?_eq_getElem? ▸ hp) (of_decide_eq_true hout)
      (show [NativeValue.text (.ofOctets [255]), .scalar (.integer .int32 1 rfl)][slotOf f 0]? =
        some (.text (.ofOctets [255])) by rw [hplace]; rfl)
      (show _ ↔ ∃ b, NativeValue.text .empty = .text b from ⟨fun _ => ⟨_, rfl⟩, fun _ => ⟨_, rfl⟩⟩)
    rwa [hplace] at hset
  obtain ⟨hresult, hsession, hslots⟩ := invoke_congr_out _ hf hagree
  exact ⟨a, f, n, ha, hf, hagree, hn, hresult ▸ hn, hsession, hslots n hn⟩

end Session

end Interop
