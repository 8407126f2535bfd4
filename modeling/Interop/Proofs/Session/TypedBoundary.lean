/-
# The typed boundary

The code of a member may do what it likes, but it begins with values that fit the types it
declared, and what it leaves behind comes out as values that fit them, or the call fails.

Main result: `invoke_typed`.
-/
import Interop.Proofs.Marshal.Fits
import Interop.Proofs.Session.Arguments

namespace Interop

open Model Native Managed Marshal

/-- A call with an argument that fits for each parameter, the default value for one that is only
written, and a receiver of the class of the function if it is not static. -/
structure Managed.Call.Typed (m : BindingModel) (c : Call) : Prop where
  length : c.arguments.length = c.function.params.length
  arguments : ∀ (i : Nat) (p : BoundParam) (w : ManagedValue), c.function.params[i]? = some p →
    c.arguments[i]? = some w → Fits m c.heap p.type w
  out : ∀ (i : Nat) (p : BoundParam), c.function.params[i]? = some p → p.direction = .out →
    c.arguments[i]? = some (defaultValue m p.type)
  receiver : c.function.takesHandle = true →
    ∃ o, c.receiver = some o ∧ m.isAssignable o.type c.function.owner = true
  created : c.function.kind = .constructor → ∃ o, c.receiver = some o ∧ o.type = c.function.owner

namespace Session

section

variable {a : Source.Assembly} {s : Session} (hs : s.model = .ofAssembly a) {f : NativeFunction}
  {slots : List NativeValue}

include hs

/-- An argument fits the type of its parameter. -/
lemma fits_of_readsArgument (hf : f ∈ s.model.functions) {p : BoundParam} (hp : p ∈ f.params)
    {slot : NativeValue} {heap heap' : Heap} {w : ManagedValue}
    (h : ReadsArgument s.model s.handles p slot heap w heap') : Fits s.model heap' p.type w := by
  rw [hs] at hf h ⊢
  obtain ⟨hpasses, hone⟩ := (passes_of_mem_functions hf).1 p hp
  have henums : ∀ path e, (BindingModel.ofAssembly a).enum? path = some e →
      e.underlying.isIntegral = true := fun _ _ he => isIntegral_of_enum? a he
  cases h with
  | out hout => exact .one (fitsOne_default henums (hone (by rw [hout]; rfl)))
  | read _ hread => exact fits_of_reads henums hpasses (toManaged_eq_ok_iff.mp hread)

/-- A call starts with what its code may expect. -/
lemma typed_of_prepare (hf : f ∈ s.model.functions) (hslots : slots.length = f.arity) {c : Call}
    (h : s.prepare f slots = .ok c) : c.Typed s.model := by
  obtain ⟨rfl, hlength⟩ := prepare_spec hslots h
  obtain ⟨heap, hreceiver, hread, _, _⟩ := exists_of_prepare h
  have hargument : ∀ (i : Nat) (p : BoundParam), c.function.params[i]? = some p →
      ∃ slot w heap₁ heap₂, c.arguments[i]? = some w ∧
        ReadsArgument s.model s.handles p slot heap₁ w heap₂ ∧ heap₂.arrays <+: c.heap.arrays := by
    intro i p hp
    obtain ⟨slot, hslot⟩ := exists_slot hslots hp
    exact ⟨slot, exists_readsArgument _ hread i p slot (getElem?_zip_params.mpr ⟨hp, hslot⟩)⟩
  refine ⟨hlength, ?_, ?_, ?_, ?_⟩
  · intro i p w hp hw
    obtain ⟨slot, w', heap₁, heap₂, hw', hreads, hgrow⟩ := hargument i p hp
    rw [hw] at hw'
    cases hw'
    exact (fits_of_readsArgument hs hf (List.mem_of_getElem? hp) hreads).mono hgrow
  · intro i p hp hout
    obtain ⟨slot, w, heap₁, heap₂, hw, hreads, _⟩ := hargument i p hp
    cases hreads with
    | out => exact hw
    | read hnot => exact absurd hout hnot
  · intro hhandle
    rcases receiver_cases hreceiver with ⟨k, o, _, _, hresolve, hr, _⟩ | ⟨hnot, _⟩ | ⟨hnot, _⟩
    · exact ⟨o, hr, (resolve_eq_ok_iff.mp hresolve).2⟩
    · rw [hhandle] at hnot
      cases hnot
    · rw [hhandle] at hnot
      cases hnot
  · intro hkind
    rw [hs] at hf
    exact ⟨_, receiver_of_prepare hkind h, TypePath.ofDotted_dotted (dotFree_owner hf)⟩

/-- What is written as a value of a type of a bound function fits the type. -/
lemma nativeFits_of_toNative (hf : f ∈ s.model.functions) {type : ManagedType}
    (htype : type ∈ f.types) {heap : Heap} {t t' : HandleTable} {w : ManagedValue} {n : NativeValue}
    (h : toNative s.model heap type t w = (.ok n, t')) : NativeFits s.model type n := by
  refine nativeFits_of_writes ?_ (toNative_eq_ok_iff.mp h)
  rw [hs] at hf ⊢
  obtain ⟨hparams, hreturns⟩ := passes_of_mem_functions hf
  rcases List.mem_append.mp htype with htype | htype
  · obtain ⟨p, hp, rfl⟩ := List.mem_map.mp htype
    exact Or.inr (hparams p hp).1
  · rw [List.mem_singleton.mp htype]
    exact hreturns

end

/-- A slot to which a fitting value was written holds a fitting value, unless the caller put a text
buffer where no text belongs. -/
lemma nativeFits_of_wrote {m : BindingModel} {type : ManagedType} {old n new : NativeValue}
    (hw : Wrote old n new) (hn : NativeFits m type n)
    (hold : type = .string ∨ ∀ b, old ≠ .text b) : NativeFits m type new := by
  cases hw with
  | text b t =>
    rcases hold with rfl | hold
    · exact nativeFits_text m _
    · exact absurd rfl (hold b)
  | noText b =>
    rcases hold with rfl | hold
    · exact nativeFits_text m _
    · exact absurd rfl (hold b)
  | other | plain => exact hn

/-- In any state of a session of a bound model, the code of a function begins with a receiver and
arguments that fit their declared types; and when a call succeeds, the value that it returns fits
the return type, and the value that it writes to the slot of a parameter fits the type of the
parameter.  The slot then holds a fitting value as well, unless the caller put a text buffer in the
slot of a parameter that is no text; such a buffer is emptied by null. -/
theorem invoke_typed (a : Source.Assembly) (s : Session) (hs : s.model = .ofAssembly a)
    (symbol : String) (slots : List NativeValue) (f : NativeFunction)
    (hf : s.model.function? symbol = some f) (hslots : slots.length = f.arity) :
    (∀ start, s.prepare f slots = .ok start →
      start.function = f ∧ start.Typed s.model ∧
      ∀ p, s.implementation? f = some p → s.dispatch start = some (p.run start)) ∧
    (∀ n, (s.invoke symbol slots).result = .ok n →
      NativeFits s.model f.returns n ∧
      ∀ (i : Nat) (p : BoundParam), f.params[i]? = some p → p.direction ≠ .input →
        ∃ old n new, slots[slotOf f i]? = some old ∧
          (s.invoke symbol slots).slots[slotOf f i]? = some new ∧ Wrote old n new ∧
          NativeFits s.model p.type n ∧
          (p.type = .string ∨ (∀ b, old ≠ .text b) → NativeFits s.model p.type new)) := by
  have hmem := (BindingModel.mem_of_function? hf).1
  constructor
  · intro start hstart
    obtain ⟨hfunction, _⟩ := prepare_spec hslots hstart
    refine ⟨hfunction, typed_of_prepare hs hmem hslots hstart, ?_⟩
    intro p hp
    rw [dispatch, hfunction, hp]
  · intro n hn
    obtain ⟨f', c, result, hf', _, _, hfunction, hdelivered⟩ := s.exists_delivered hn
    rw [hf] at hf'
    cases hf'
    cases hfunction
    constructor
    · obtain ⟨n', hn', hconv⟩ := hdelivered.returns
      rw [hn] at hn'
      cases hn'
      exact nativeFits_of_toNative hs hmem (List.mem_append_right _ (List.mem_singleton_self _))
        hconv
    · intro i p hp hdirection
      obtain ⟨old, v, n, new, hold, _, hconv, hnew, hwrote, _⟩ := hdelivered.byRef i p hp hdirection
      have htype : p.type ∈ c.function.types :=
        List.mem_append_left _ (List.mem_map_of_mem (List.mem_of_getElem? hp))
      have hfits := nativeFits_of_toNative hs hmem htype hconv
      exact ⟨old, n, new, hold, hnew, hwrote, hfits, nativeFits_of_wrote hwrote hfits⟩

/-- A value of an enum and a text by reference; the code gives the enum value back. -/
theorem invoke_typed_enum :
    ∃ a f start n, Source.Assembly.ofText ("public enum E : byte \x7b X \x7d " ++
        "public class A \x7b public static E same(E e, ref string text); \x7d") = .ok a ∧
      let s := (ofModel (.ofAssembly a)).define ⟨[], "A"⟩ "same(E, ref string)"
        (.observe fun c => .done (.ok (c.arguments.headD .null)))
      let slots : List NativeValue := [.scalar (.integer .uint8 200 rfl), .text .empty]
      s.model.function? "A_same" = some f ∧ slots.length = f.arity ∧
        s.prepare f slots = .ok start ∧ start.Typed s.model ∧
        (s.invoke "A_same" slots).result = .ok n ∧ NativeFits s.model f.returns n := by
  have hrun : (Source.Assembly.ofText ("public enum E : byte \x7b X \x7d " ++
      "public class A \x7b public static E same(E e, ref string text); \x7d")).toOption.any
        (fun a =>
          let s := (ofModel (.ofAssembly a)).define ⟨[], "A"⟩ "same(E, ref string)"
            (.observe fun c => .done (.ok (c.arguments.headD .null)))
          let slots : List NativeValue := [.scalar (.integer .uint8 200 rfl), .text .empty]
          (s.model.function? "A_same").any fun f => slots.length = f.arity &&
            (s.prepare f slots).toOption.isSome &&
            (s.invoke "A_same" slots).result.toOption.isSome) = true := by
    decide +kernel
  obtain ⟨a, ha, hcalls⟩ := Source.Assembly.exists_of_any hrun
  obtain ⟨f, hf, hcall⟩ := (Option.any_eq_true ..).mp hcalls
  simp only [Bool.and_eq_true, decide_eq_true_iff] at hcall
  obtain ⟨⟨hslots, hprepare⟩, hinvoke⟩ := hcall
  obtain ⟨start, hstart⟩ := exists_ok_of_isSome hprepare
  obtain ⟨n, hn⟩ := exists_ok_of_isSome hinvoke
  obtain ⟨hstarts, hends⟩ := invoke_typed a _ rfl "A_same" _ f hf hslots
  exact ⟨a, f, start, n, ha, hf, hslots, hstart, (hstarts start hstart).2.1, hn, (hends n hn).1⟩

end Session

end Interop
