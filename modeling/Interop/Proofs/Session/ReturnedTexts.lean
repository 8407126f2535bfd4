/-
# Texts that go back

A text comes in as constant text or in a buffer, and it goes back as constant text, which ends at
its first NUL.  A buffer can hold a NUL like any other octet, and reading takes it for a character
of the text: the text is accepted, but has no native form.  All other texts that are accepted go
back as they were.  So a text passed by reference that the code of a member leaves alone makes the
call fail exactly if it has a NUL inside.

Main result: `accepted_texts_return`.
-/
import Interop.Model.Binding
import Interop.Proofs.Marshal.RoundTrip
import Interop.Proofs.Session.Arguments
import Interop.Source.Parser

namespace Interop

open Model Native Managed Marshal

namespace Marshal

variable {m : BindingModel} {t : HandleTable} {heap heap' : Heap} {v : NativeValue}
  {w : ManagedValue}

/-- A text is accepted exactly if it is null or the octets are those of a text. -/
lemma toManaged_string_eq_ok_iff :
    toManaged m t .string heap v = .ok (w, heap') ↔
      heap' = heap ∧ (v = .null ∧ w = .null ∨
        ∃ s, v.octets? = some (Text.utf8 s) ∧ w = .string s) := by
  rw [toManaged_eq_ok_iff]
  constructor
  · intro h
    cases h with
    | noText => exact ⟨rfl, Or.inl ⟨rfl, rfl⟩⟩
    | @str c s _ h => exact ⟨rfl, Or.inr ⟨s, congrArg some (Text.utf8_of_ofUtf8 h).symm, rfl⟩⟩
    | @text b s _ h => exact ⟨rfl, Or.inr ⟨s, congrArg some (Text.utf8_of_ofUtf8 h).symm, rfl⟩⟩
  · rintro ⟨rfl, ⟨rfl, rfl⟩ | ⟨s, hoctets, rfl⟩⟩
    · exact .noText _
    · have hread : ∀ {octets : List UInt8}, some octets = some (Text.utf8 s) →
          Text.ofUtf8 octets = .ok s := by
        rintro octets ⟨⟩
        exact Text.ofUtf8_utf8 s
      cases v with
      | str c => exact .str _ (hread hoctets)
      | text b => exact .text _ (hread hoctets)
      | _ => cases hoctets

/-- A text with a NUL inside has no native form. -/
lemma ofText?_eq_none {s : String} (h : (0 : UInt8) ∈ Text.utf8 s) :
    ConstText.ofText? s = none := by
  rw [ConstText.ofText?, ConstText.ofOctets?, dif_pos h]

/-- A text that was accepted goes back as it was if there is no NUL inside. -/
lemma toNative_of_nulFree (hnul : NulFree v)
    (h : toManaged m t .string heap v = .ok (w, heap')) :
    ∃ n, CanonicalOne m .string v n ∧
      ∀ heap t, toNative m heap .string t w = (.ok n, t) := by
  have hback : ∀ {octets : List UInt8} {s : String} (h₀ : (0 : UInt8) ∉ octets),
      Text.ofUtf8 octets = .ok s →
        ∀ heap t, toNative m heap .string t (.string s) = (.ok (.str ⟨octets, h₀⟩), t) :=
    fun h₀ hs heap t => toNative_eq_ok_iff.mpr (.string t (ofText?_of_ofUtf8 h₀ hs))
  cases toManaged_eq_ok_iff.mp h with
  | noText => exact ⟨.null, .noText, fun _ _ => rfl⟩
  | @str c s _ hs => exact ⟨.str c, .str c, hback c.nul_not_mem hs⟩
  | @text b s _ hs => exact ⟨_, .text b _ rfl, hback (hnul b rfl) hs⟩

/-- A text that was accepted does not go back if there is a NUL inside. -/
lemma toNative_of_not_nulFree (hnul : ¬NulFree v)
    (h : toManaged m t .string heap v = .ok (w, heap')) :
    ∀ heap t, toNative m heap .string t w = (.error (.invalidString .interiorNul), t) := by
  obtain ⟨b, hb⟩ := not_forall.mp hnul
  obtain ⟨rfl, h₀⟩ := Classical.not_imp.mp hb
  cases toManaged_eq_ok_iff.mp h with
  | text _ hs =>
    rw [not_not, ← Text.utf8_of_ofUtf8 hs] at h₀
    intro heap t
    simp only [toNative, ofText?_eq_none h₀]

end Marshal

namespace Session

/-- A text is passed by reference, and the code of the call ended with the argument for it that it
began with. -/
structure LeavesText (s : Session) (f : NativeFunction) (slots : List NativeValue) (c : Call)
    (i : Nat) (p : BoundParam) (v : NativeValue) : Prop where
  param : f.params[i]? = some p
  type : p.type = .string
  direction : p.direction = .ref
  slot : slots[slotOf f i]? = some v
  same : ∃ start, s.prepare f slots = .ok start ∧ c.arguments[i]? = start.arguments[i]?

section

variable {s : Session} {f : NativeFunction} {slots : List NativeValue} {c : Call} {i : Nat}
  {p : BoundParam} {v : NativeValue} {result : ManagedValue}

/-- A text that was left alone is the one that was read. -/
lemma LeavesText.exists_read (h : s.LeavesText f slots c i p v) :
    ∃ w heap heap', c.arguments[i]? = some w ∧
      toManaged s.model s.handles .string heap v = .ok (w, heap') := by
  obtain ⟨start, hstart, hsame⟩ := h.same
  obtain ⟨_, _, hread, _⟩ := exists_of_prepare hstart
  obtain ⟨w, heap₁, heap₂, hw, hreads, _⟩ :=
    exists_readsArgument _ hread i p v (getElem?_zip_params.mpr ⟨h.param, h.slot⟩)
  cases hreads with
  | out hout => rw [h.direction] at hout; cases hout
  | read _ hread =>
    rw [h.type] at hread
    exact ⟨w, heap₁, heap₂, hsame.trans hw, hread⟩

/-- A text without a NUL that was left alone is not why a call fails on its way back. -/
lemma LeavesText.ne_of_unwritable (h : s.LeavesText c.function slots c i p v) (hnul : NulFree v)
    {place : Option Nat} {e : CallError} (he : Unwritable s.model c result place e) :
    place ≠ some i := by
  obtain ⟨w, heap, heap', hw, hread⟩ := h.exists_read
  obtain ⟨n, _, hback⟩ := toNative_of_nulFree hnul hread
  rintro rfl
  cases he with
  | argument hp _ hfault =>
    rw [h.param] at hp
    cases hp
    rw [h.type, hw, Option.getD_some, hback] at hfault
    cases hfault

/-- A text with a NUL inside that was left alone cannot be written, and the call fails. -/
lemma LeavesText.unwritable (h : s.LeavesText c.function slots c i p v) (hnul : ¬NulFree v) :
    Unwritable s.model c result (some i)
        (.conversion c.function.symbol p.name (.invalidString .interiorNul)) ∧
      ∃ e, (s.finish c result slots).result = .error e := by
  obtain ⟨w, heap, heap', hw, hread⟩ := h.exists_read
  have hback : ∀ t, toNative s.model c.heap p.type t (c.arguments[i]?.getD .null) =
      (.error (.invalidString .interiorNul), t) := by
    intro t
    rw [h.type, hw, Option.getD_some, toNative_of_not_nulFree hnul hread]
  have href : p.direction.isByRef = true := by rw [h.direction]; rfl
  refine ⟨.argument h.param href (hback s.handles), ?_⟩
  cases hresult : (s.finish c result slots).result with
  | error e => exact ⟨e, rfl⟩
  | ok n =>
    obtain ⟨_, values, t', _, hwrite, _⟩ := finish_of_ok hresult
    obtain ⟨_, _, hn⟩ := ((writeArguments_spec _ hwrite).2 i p h.param).2 href
    rw [hback] at hn
    cases hn

end

/-- For texts, constant or in a buffer, and null.  One is accepted exactly if it is null or UTF-8.
One that was accepted goes back as it was if there is no NUL inside, and does not go back if there
is; only a buffer can have one.  When the code of a member leaves alone a text that is passed by
reference, then a text without a NUL is not why the call fails on its way back; with one inside,
the text cannot be written and the call fails. -/
theorem accepted_texts_return (m : BindingModel) :
    (∀ t heap v w heap', toManaged m t .string heap v = .ok (w, heap') ↔
      heap' = heap ∧ (v = .null ∧ w = .null ∨
        ∃ s, v.octets? = some (Text.utf8 s) ∧ w = .string s)) ∧
    (∀ t heap v w heap', toManaged m t .string heap v = .ok (w, heap') →
      (NulFree v → ∃ n, CanonicalOne m .string v n ∧
        ∀ heap t, toNative m heap .string t w = (.ok n, t)) ∧
      (¬NulFree v →
        ∀ heap t, toNative m heap .string t w = (.error (.invalidString .interiorNul), t))) ∧
    ∀ (s : Session) symbol f slots result c i p v, s.model = m →
      s.model.function? symbol = some f → slots.length = f.arity →
      s.Ends f slots (.ok result) c → s.LeavesText f slots c i p v →
        (NulFree v → ∀ e, (s.invoke symbol slots).result = .error e →
          ∃ place, place ≠ some i ∧ Unwritable m c result place e) ∧
        (¬NulFree v →
          Unwritable m c result (some i)
            (.conversion f.symbol p.name (.invalidString .interiorNul)) ∧
          ∃ e, (s.invoke symbol slots).result = .error e) := by
  refine ⟨fun t heap v w heap' => toManaged_string_eq_ok_iff, fun t heap v w heap' h =>
    ⟨fun hnul => toNative_of_nulFree hnul h, fun hnul => toNative_of_not_nulFree hnul h⟩, ?_⟩
  rintro s symbol f slots result c i p v rfl hf hslots hends hleaves
  obtain ⟨rfl, _⟩ := hends.spec hslots
  have hinvoke : s.invoke symbol slots = s.finish c result slots := by
    obtain ⟨start, hstart, hend⟩ := hends
    simp only [invoke, hf, hslots, if_true, call, hstart, hend]
  rw [hinvoke]
  constructor
  · intro hnul e he
    obtain ⟨place, hunwritable⟩ := exists_unwritable_of_finish he
    exact ⟨place, hleaves.ne_of_unwritable hnul hunwritable, hunwritable⟩
  · exact hleaves.unwritable

/-- The texts of two buffers come in and are left alone: the second has a NUL inside and makes the
call fail, and the first does not. -/
theorem accepted_texts_return_two :
    ∃ a f c, Source.Assembly.ofText
        ("public static class A \x7b " ++
          "public static void F(ref string s, ref string t); \x7d") = .ok a ∧
      let m := BindingModel.ofAssembly a
      let s := (ofModel m).define ⟨[], "A"⟩ "F(ref string, ref string)" (.done (.ok .null))
      let v : NativeValue := .text (.ofText "é")
      let w : NativeValue := .text (.ofOctets [0x61, 0, 0x62])
      NulFree v ∧ ¬NulFree w ∧ s.model.function? "A_F" = some f ∧
        s.Ends f [v, w] (.ok .null) c ∧ c.arguments = [.string "é", .string "a\x00b"] ∧
        (∃ n, CanonicalOne m .string v n ∧
          ∀ heap t, toNative m heap .string t (.string "é") = (.ok n, t)) ∧
        ∃ e, (s.invoke "A_F" [v, w]).result = .error e ∧
          ∃ place, place ≠ some 0 ∧ Unwritable m c .null place e := by
  have hrun : (Source.Assembly.ofText ("public static class A \x7b " ++
      "public static void F(ref string s, ref string t); \x7d")).toOption.any (fun a =>
        let s := (ofModel (.ofAssembly a)).define ⟨[], "A"⟩ "F(ref string, ref string)"
          (.done (.ok .null))
        let slots : List NativeValue := [.text (.ofText "é"), .text (.ofOctets [0x61, 0, 0x62])]
        (s.model.function? "A_F").any fun f => (s.prepare f slots).toOption.any fun start =>
          (s.dispatch start).any fun ended => f.params[0]?.any fun p => f.params[1]?.any fun q =>
            decide (f.takesHandle = false ∧ slots.length = f.arity ∧
              p.type = .string ∧ p.direction = .ref ∧ q.type = .string ∧ q.direction = .ref ∧
              ended.1 = .ok .null ∧ start.arguments = [.string "é", .string "a\x00b"] ∧
              ended.2.arguments = start.arguments)) = true := by
    decide +kernel
  obtain ⟨a, ha, hfunction⟩ := Source.Assembly.exists_of_any hrun
  obtain ⟨f, hf, hprepare⟩ := (Option.any_eq_true ..).mp hfunction
  obtain ⟨start, hstart, hdispatch⟩ := (Option.any_eq_true ..).mp hprepare
  obtain ⟨⟨result, c⟩, hend, hfirst⟩ := (Option.any_eq_true ..).mp hdispatch
  obtain ⟨p, hp, hsecond⟩ := (Option.any_eq_true ..).mp hfirst
  obtain ⟨q, hq, hleft⟩ := (Option.any_eq_true ..).mp hsecond
  obtain ⟨hstatic, hslots, hpt, hpd, hqt, hqd, rfl, hread, hsame⟩ := of_decide_eq_true hleft
  have hstart := eq_ok_of_toOption hstart
  have hplace : ∀ i, slotOf f i = i := fun i => by rw [slotOf, hstatic]; rfl
  have hv : NulFree (.text (.ofText "é")) := by rintro b ⟨⟩; decide
  have hw : ¬NulFree (.text (.ofOctets [0x61, 0, 0x62])) := fun h => absurd (h _ rfl) (by decide)
  obtain ⟨haccepts, hreturn, hcall⟩ := accepted_texts_return (.ofAssembly a)
  have haccepted := (haccepts .empty .empty (.text (.ofText "é")) (.string "é") .empty).mpr
    ⟨rfl, Or.inr ⟨"é", by decide, rfl⟩⟩
  have hends : Ends _ f [_, _] _ c := ⟨start, hstart, hend⟩
  obtain ⟨hinnocent, _⟩ := hcall _ _ _ _ _ c 0 p _ rfl hf hslots hends
    ⟨hp, hpt, hpd, by rw [hplace]; rfl, start, hstart, by rw [hsame]⟩
  obtain ⟨_, hfails⟩ := hcall _ _ _ _ _ c 1 q _ rfl hf hslots hends
    ⟨hq, hqt, hqd, by rw [hplace]; rfl, start, hstart, by rw [hsame]⟩
  obtain ⟨_, e, he⟩ := hfails hw
  exact ⟨a, f, c, ha, hv, hw, hf, hends, hsame.trans hread, (hreturn _ _ _ _ _ haccepted).1 hv,
    e, he, hinnocent hv e he⟩

/-- A buffer with a NUL inside is accepted and does not go back, so that a call fails whose code
does nothing. -/
theorem text_with_nul_lost :
    ∃ a, Source.Assembly.ofText
        "public static class A \x7b public static void F(ref string s); \x7d" = .ok a ∧
      let m := BindingModel.ofAssembly a
      let s := (ofModel m).define ⟨[], "A"⟩ "F(ref string)" (.done (.ok .null))
      let v : NativeValue := .text (.ofOctets [0x61, 0, 0x62])
      toManaged m .empty .string .empty v = .ok (.string "a\x00b", .empty) ∧
        (toNative m .empty .string .empty (.string "a\x00b")).1 =
          .error (.invalidString .interiorNul) ∧
        (s.invoke "A_F" [v]).result =
          .error (.conversion "A_F" "s" (.invalidString .interiorNul)) := by
  have hrun : (Source.Assembly.ofText
      "public static class A \x7b public static void F(ref string s); \x7d").toOption.any (fun a =>
        let m := BindingModel.ofAssembly a
        let s := (ofModel m).define ⟨[], "A"⟩ "F(ref string)" (.done (.ok .null))
        let v : NativeValue := .text (.ofOctets [0x61, 0, 0x62])
        decide ((toNative m .empty .string .empty (.string "a\x00b")).1 =
            .error (.invalidString .interiorNul) ∧
          (s.invoke "A_F" [v]).result =
            .error (.conversion "A_F" "s" (.invalidString .interiorNul)))) = true := by
    decide +kernel
  obtain ⟨a, ha, hlost⟩ := Source.Assembly.exists_of_any hrun
  exact ⟨a, ha, toManaged_string_eq_ok_iff.mpr ⟨rfl, Or.inr ⟨_, by decide, rfl⟩⟩,
    of_decide_eq_true hlost⟩

end Session

end Interop
