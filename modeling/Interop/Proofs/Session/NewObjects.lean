/-
# Handles stand for objects

In a table of handles an object has one handle and a handle one object, for ever, and no other
number stands for an object.  The object that a constructor makes is none that there was before, so
its handle is new as well, whatever the code of the constructor does.

Main result: `handles_stand_for_objects`.
-/
import Interop.Proofs.Managed.Lifetimes
import Interop.Proofs.Managed.Script
import Interop.Proofs.Model.PassedTypes
import Interop.Proofs.Session.ClosedSessions

namespace Interop

open Model Native Managed Marshal

/-- An object is written as a handle that stands for it. -/
lemma Marshal.exists_handle_of_toNative {m : BindingModel} {heap : Heap} {path : TypePath}
    {o : ObjectRef} {n : NativeValue} {t t' : HandleTable} (ht : t.Reachable)
    (h : toNative m heap (.object path) t (.object o) = (.ok n, t')) :
    ∃ k, n = .handle k ∧ t'.resolve? k = some o := by
  cases toNative_eq_ok_iff.mp h with
  | object => exact ⟨_, rfl, ht.resolve?_root o⟩

namespace Session

/-- A constructor that succeeds returns a handle that stood for nothing before, and that stands for
an object of its owner. -/
lemma exists_new_object {a : Source.Assembly} {s : Session} (hmodel : s.model = .ofAssembly a)
    (hs : s.Closed) {symbol : String} {slots : List NativeValue} {f : NativeFunction}
    (hf : s.model.function? symbol = some f) (hkind : f.kind = .constructor) {n : NativeValue}
    (hn : (s.invoke symbol slots).result = .ok n) :
    ∃ h o, n = .handle h ∧ s.handles.resolve? h = none ∧
      (s.invoke symbol slots).session.handles.resolve? h = some o ∧ o.type = f.owner := by
  have hmem : f ∈ (BindingModel.ofAssembly a).functions := by
    rw [← hmodel]
    exact (BindingModel.mem_of_function? hf).1
  have hgives := s.givesHandles_invoke symbol slots
  obtain ⟨f', c, result, hf', _, ⟨start, hstart, hend⟩, hfunction, hdelivered⟩ :=
    s.exists_delivered hn
  rw [hf] at hf'
  cases hf'
  cases hfunction
  -- the code cannot change the receiver, and what it returns is not looked at
  have hreceiver : c.receiver = some (s.heap.newObject c.function.owner).1 :=
    (continues_dispatch hend).receiver.trans (receiver_of_prepare hkind hstart)
  have hreturned : returned c result = .object (s.heap.newObject c.function.owner).1 := by
    rw [returned, hkind, hreceiver]
  obtain ⟨n', hn', hconv⟩ := hdelivered.returns
  rw [hn] at hn'
  cases hn'
  rw [hreturned, (constructor_spec hmem hkind).2] at hconv
  obtain ⟨h, rfl, hres⟩ := exists_handle_of_toNative (hgives.reachable hs.handles) hconv
  refine ⟨h, _, rfl, ?_, hres, TypePath.ofDotted_dotted (dotFree_owner hmem)⟩
  -- were the handle known before, then so would be its object, which was not there yet
  by_contra hknown
  obtain ⟨p, hp⟩ := Option.ne_none_iff_exists'.mp hknown
  obtain rfl := Option.some.inj ((HandleTable.resolve?_of_le hgives.le hp).symm.trans hres)
  exact Nat.lt_irrefl _ (hs.slots _ (List.mem_of_getElem? hp))

/-- Whatever objects come and go and in whatever order they are given handles: two handles that were
given out are the same exactly when they are for the same object, a handle stands for ever for the
object that it was given out for, and no other number stands for an object.  And in every session
of a bound model whose code makes up no references, a constructor that succeeds returns a handle
that stood for nothing before, whatever its code returned; the handle stands for ever for an object
whose class is the owner of the constructor. -/
theorem handles_stand_for_objects (a : Source.Assembly) :
    (∀ s s' : Lifetimes, Lifetimes.Steps .start s → Lifetimes.Steps s s' →
      (∀ i j h k, (i, h) ∈ s.issued → (j, k) ∈ s'.issued → (h = k ↔ i = j)) ∧
      (∀ i h, (i, h) ∈ s.issued → ∃ o, s'.made[i]? = some o ∧ s'.table.resolve? h = some o ∧
        ∀ j, s'.Alive j → s'.made[j]? = some o → j = i) ∧
      (∀ raw, (∀ p ∈ s'.issued, p.2.raw ≠ raw) →
        (Handle.ofRaw? raw).bind s'.table.resolve? = none)) ∧
    (∀ before after : List Action, (ofModel (.ofAssembly a)).HonestRun before →
      let s := (ofModel (.ofAssembly a)).run before
      ∀ symbol slots f n, s.model.function? symbol = some f → f.kind = .constructor →
        (s.invoke symbol slots).result = .ok n →
          ∃ h o, n = .handle h ∧ s.handles.resolve? h = none ∧
            ((s.invoke symbol slots).session.run after).handles.resolve? h = some o ∧
            o.type = f.owner) := by
  constructor
  · intro s s' hs hs'
    obtain ⟨hsound, _⟩ := Lifetimes.sound_start.steps hs
    obtain ⟨hsound', hgrows⟩ := hsound.steps hs'
    refine ⟨?_, ?_, fun raw => hsound'.resolve?_eq_none⟩
    · exact fun i j h k hi hj => hsound'.handle_eq_iff (hgrows.issued _ hi) hj
    · intro i h hi
      have hi' := hgrows.issued _ hi
      obtain ⟨o, ho, hres⟩ := hsound'.resolves i h hi'
      exact ⟨o, ho, hres, fun j hj hp => hsound'.apart j i o o hj (Or.inr ⟨h, hi'⟩) hp ho rfl⟩
  · intro before after hhonest s symbol slots f n hf hkind hn
    have hclosed : s.Closed := (closed_ofModel _).run before hhonest
    obtain ⟨h, o, rfl, hnew, hres, htype⟩ :=
      exists_new_object (model_run _ before) hclosed hf hkind hn
    have hle := (givesHandles_run after (s.invoke symbol slots).session).le
    exact ⟨h, o, rfl, hnew, HandleTable.resolve?_of_le hle hres, htype⟩

/-- An object at the address of one that is gone, which is given its handle twice; and a constructor
whose code returns another object than the one that it is for. -/
theorem handles_stand_for_objects_anew :
    ∃ a, Source.Assembly.ofText "public class A \x7b \x7d" = .ok a ∧
      (∃ (s s' : Lifetimes) (h k : Handle) (o : ObjectRef),
        Lifetimes.Steps .start s ∧ Lifetimes.Steps s s' ∧ s'.made = [o, o] ∧
          (1, h) ∈ s.issued ∧ (1, k) ∈ s'.issued ∧ h = k ∧ s'.table.resolve? h = some o ∧
          (∀ p ∈ s'.issued, p.2.raw ≠ 2) ∧ (Handle.ofRaw? 2).bind s'.table.resolve? = none) ∧
      let another : Program := .ofScript [.return .newInstance]
      let before : List Action := [.define ⟨[], "A"⟩ ".ctor()" another, .call "A_new" []]
      let s := (ofModel (.ofAssembly a)).run before
      (ofModel (.ofAssembly a)).HonestRun before ∧ s.heap.objects.length = 2 ∧
        ∃ f h o, s.model.function? "A_new" = some f ∧ f.kind = .constructor ∧
          (s.invoke "A_new" []).result = .ok (.handle h) ∧ s.handles.resolve? h = none ∧
          ((s.invoke "A_new" []).session.run [.call "A_new" []]).handles.resolve? h = some o ∧
          o.type = f.owner := by
  have hrun : (Source.Assembly.ofText "public class A \x7b \x7d").toOption.any (fun a =>
      let s := (ofModel (.ofAssembly a)).run
        [.define ⟨[], "A"⟩ ".ctor()" (.ofScript [.return .newInstance]), .call "A_new" []]
      s.heap.objects.length = 2 && (s.model.function? "A_new").any fun f =>
        f.kind = .constructor && (s.invoke "A_new" []).result.toOption.isSome) = true := by
    decide +kernel
  obtain ⟨a, ha, hread⟩ := Source.Assembly.exists_of_any hrun
  obtain ⟨hlives, hnews⟩ := handles_stand_for_objects a
  refine ⟨a, ha, ?_, ?_⟩
  · obtain ⟨s, s', k, hsteps, hsteps', hissued, hmade, hissued'⟩ :=
      Lifetimes.exists_steps_reuse ⟨0, ⟨[], "A"⟩⟩
    obtain ⟨hsame, hres, hnone⟩ := hlives s s' hsteps hsteps'
    have hfirst : (1, HandleTable.handleAt 0) ∈ s.issued := by simp [hissued]
    have hlast : (1, k) ∈ s'.issued := by simp [hissued']
    obtain rfl := (hsame 1 1 _ _ hfirst hlast).mpr rfl
    have hraw : ∀ p ∈ s'.issued, p.2.raw ≠ 2 := by simp [hissued', HandleTable.handleAt]
    obtain ⟨o, ho, hresolves, -⟩ := hres 1 _ hfirst
    rw [hmade] at ho
    cases ho
    exact ⟨s, s', _, _, _, hsteps, hsteps', hmade, hfirst, hlast, rfl, hresolves, hraw,
      hnone 2 hraw⟩
  · intro another before s
    have hhonest : (ofModel (.ofAssembly a)).HonestRun before :=
      ⟨fun n _ => Program.honest_ofScript _ n, trivial, trivial⟩
    obtain ⟨hmade, hcalls⟩ := Bool.and_eq_true_iff.mp hread
    obtain ⟨f, hf, hcall⟩ := (Option.any_eq_true ..).mp hcalls
    obtain ⟨hkind, hok⟩ := Bool.and_eq_true_iff.mp hcall
    obtain ⟨n, hn⟩ := exists_ok_of_isSome hok
    have hkind := of_decide_eq_true hkind
    obtain ⟨h, o, rfl, hnew, hres, htype⟩ :=
      hnews before [.call "A_new" []] hhonest "A_new" [] f n hf hkind hn
    exact ⟨hhonest, of_decide_eq_true hmade, f, h, o, hf, hkind, hn, hnew, hres, htype⟩

end Session

end Interop
