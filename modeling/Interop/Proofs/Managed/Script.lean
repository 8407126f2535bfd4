/-
# Scripts are honest

An expression of a script can ask for the state of its call and make arrays and objects, but no
reference can be written in it.  So whatever a script does, the objects that it hands on exist.
-/
import Interop.Managed.Script
import Interop.Proofs.Managed.Objects

namespace Interop.Managed

open Model

/-- A continuation that is honest from `n` objects on, given a value that exists. -/
def HonestFrom (next : ManagedValue → Program) (n : Nat) : Prop :=
  ∀ n' v, n ≤ n' → v.Below n' → (next v).Honest n'

lemma HonestFrom.mono {next : ManagedValue → Program} {n n' : Nat} (h : HonestFrom next n)
    (hle : n ≤ n') : HonestFrom next n' :=
  fun n'' v hle' => h n'' v (Nat.le_trans hle hle')

lemma ArgumentForm.below_extract? {form : ArgumentForm} {v w : ManagedValue} {n : Nat}
    (hv : v.Below n) (h : form.extract? v = some w) : w.Below n := by
  unfold extract? at h
  split at h
  · obtain ⟨s, _, rfl⟩ := Option.map_eq_some_iff.mp h
    exact ManagedValue.Below.of_ne (by simp) n
  · split at h
    · cases h
      exact ManagedValue.Below.of_ne (by simp) n
    · cases h
  · cases h; exact hv
  · cases h; exact hv
  · cases h; exact hv
  · cases h; exact hv
  · cases h; exact hv
  · cases h

namespace Expr

lemma honest_failed (f : ManagedFailure) (n : Nat) : (failed f).Honest n := by
  intro v hv
  cases hv

lemma honest_withArgument {form : ArgumentForm} {i : Nat} {next : ManagedValue → Program} {n : Nat}
    (h : HonestFrom next n) : (withArgument form i next).Honest n := by
  intro c hn hc
  dsimp only
  split
  · exact honest_failed _ n
  · rename_i v hv
    split
    · rename_i w hw
      have hbelow := hc.arguments v (List.mem_of_getElem? hv)
      rw [hn] at hbelow
      exact h n w (Nat.le_refl n) (ArgumentForm.below_extract? hbelow hw)
    · exact honest_failed _ n

lemma honest_withReceiver {next : ObjectRef → Program} {n : Nat}
    (h : ∀ o, o.index < n → (next o).Honest n) : (withReceiver next).Honest n := by
  intro c hn hc
  dsimp only
  split
  · rename_i o ho
    exact h o (hn ▸ hc.receiver o ho)
  · exact honest_failed _ n

/-- The value of a field, or null. -/
lemma below_field? {h : Heap} (hc : h.Closed) (o : ObjectRef) (name : String) :
    ((h.field? o name).getD .null).Below h.objects.length := by
  cases hfield : h.field? o name with
  | none => exact ManagedValue.Below.of_ne (by simp) _
  | some v => exact hc.fields o name v hfield

lemma below_static? {c : Call} (hc : c.Closed) (name : String) :
    ((c.static? name).getD .null).Below c.heap.objects.length := by
  cases hstatic : c.static? name with
  | none => exact ManagedValue.Below.of_ne (by simp) _
  | some v => exact hc.statics _ v hstatic

lemma below_getD {h : Heap} (hc : h.Closed) (a : ArrayRef) (i : Nat) :
    ((h.items a).getD i .null).Below h.objects.length := by
  rw [List.getD_eq_getElem?_getD]
  cases hitem : (h.items a)[i]? with
  | none => exact ManagedValue.Below.of_ne (by simp) _
  | some v => exact hc.items a v (List.mem_of_getElem? hitem)

mutual

/-- To go on with the value of an expression is honest if what goes on is. -/
lemma honest_eval : ∀ (e : Expr) {n : Nat} {next : ManagedValue → Program}, HonestFrom next n →
    (e.eval next).Honest n
  | .null, n, next, h => h n _ (Nat.le_refl n) (ManagedValue.Below.of_ne (by simp) n)
  | .scalar s, n, next, h => h n _ (Nat.le_refl n) (ManagedValue.Below.of_ne (by simp) n)
  | .string t, n, next, h => h n _ (Nat.le_refl n) (ManagedValue.Below.of_ne (by simp) n)
  | .enum e, n, next, h => h n _ (Nat.le_refl n) (ManagedValue.Below.of_ne (by simp) n)
  | .array items, n, next, h => by
    refine honest_evalAll items fun n' vs hle hvs => ⟨hvs, fun a => ?_⟩
    exact h n' _ hle (ManagedValue.Below.of_ne (by simp) n')
  | .object type, n, next, h => by
    intro heap hn
    refine h (n + 1) _ (Nat.le_succ n) ?_
    rintro o ⟨⟩
    exact Nat.lt_succ_of_le (Nat.le_of_eq hn)
  | .newInstance, n, next, h => by
    intro c _ _ heap hn
    refine h (n + 1) _ (Nat.le_succ n) ?_
    rintro o ⟨⟩
    exact Nat.lt_succ_of_le (Nat.le_of_eq hn)
  | .argument i, n, next, h => honest_withArgument h
  | .argumentAs form i, n, next, h => honest_withArgument h
  | .add i k, n, next, h => by
    refine honest_withArgument fun n' v hle _ => ?_
    split
    · exact h n' _ hle (ManagedValue.Below.of_ne (by simp [int]) n')
    · exact h n' _ hle (ManagedValue.Below.of_ne (by simp) n')
  | .bitOr i j, n, next, h => by
    refine honest_withArgument fun n' v hle _ => honest_withArgument fun n'' w hle' _ => ?_
    have hle'' := Nat.le_trans hle hle'
    split
    · exact h n'' _ hle'' (ManagedValue.Below.of_ne (by simp) n'')
    · exact h n'' _ hle'' (ManagedValue.Below.of_ne (by simp) n'')
  | .receiver, n, next, h => by
    refine honest_withReceiver fun o ho => h n _ (Nat.le_refl n) ?_
    rintro p ⟨⟩
    exact ho
  | .field name, n, next, h =>
    honest_withReceiver fun o _ c hn hc =>
      h n _ (Nat.le_refl n) (hn ▸ below_field? hc.heap o name)
  | .static name, n, next, h => fun c hn hc =>
    h n _ (Nat.le_refl n) (hn ▸ below_static? hc name)
  | .symbol, n, next, h => fun c _ _ =>
    h n _ (Nat.le_refl n) (ManagedValue.Below.of_ne (by simp) n)
  | .display e, n, next, h =>
    honest_eval e fun n' v hle _ c _ _ => h n' _ hle (ManagedValue.Below.of_ne (by simp) n')
  | .typeName e, n, next, h =>
    honest_eval e fun n' v hle _ => h n' _ hle (ManagedValue.Below.of_ne (by simp) n')
  | .equal e f, n, next, h =>
    honest_eval e fun n' v hle _ => honest_eval f fun n'' w hle' _ c _ _ =>
      h n'' _ (Nat.le_trans hle hle') (ManagedValue.Below.of_ne (by simp) n'')
  | .item e i, n, next, h => by
    refine honest_eval e fun n' v hle _ => ?_
    split
    · exact fun c hn hc => h n' _ hle (hn ▸ below_getD hc.heap _ i)
    · exact h n' _ hle (ManagedValue.Below.of_ne (by simp) n')
  | .length e, n, next, h => by
    refine honest_eval e fun n' v hle _ => ?_
    split
    · exact fun c _ _ => h n' _ hle (ManagedValue.Below.of_ne (by simp [int]) n')
    · exact h n' _ hle (ManagedValue.Below.of_ne (by simp [int]) n')
    · exact h n' _ hle (ManagedValue.Below.of_ne (by simp) n')
  | .fieldOf e name, n, next, h => by
    refine honest_eval e fun n' v hle _ => ?_
    split
    · exact fun c hn hc => h n' _ hle (hn ▸ below_field? hc.heap _ name)
    · exact h n' _ hle (ManagedValue.Below.of_ne (by simp) n')

lemma honest_evalAll : ∀ (es : List Expr) {n : Nat} {next : List ManagedValue → Program},
    (∀ n' vs, n ≤ n' → (∀ v ∈ vs, v.Below n') → (next vs).Honest n') →
      (evalAll es next).Honest n
  | [], n, next, h => h n [] (Nat.le_refl n) (by simp)
  | e :: es, n, next, h =>
    honest_eval e fun n' v hle hv => honest_evalAll es fun n'' vs hle' hvs =>
      h n'' (v :: vs) (Nat.le_trans hle hle') (List.forall_mem_cons.mpr ⟨hv.mono hle', hvs⟩)

end

end Expr

/-- Every script is honest, however many objects there are when it starts. -/
theorem Program.honest_ofScript (script : List Statement) : ∀ n, (ofScript script).Honest n := by
  induction script with
  | nil =>
    intro n v hv
    cases hv
    exact ManagedValue.Below.of_ne (by simp) n
  | cons statement rest ih =>
    intro n
    cases statement with
    | setArgument i e => exact Expr.honest_eval e fun n' v _ hv => ⟨hv, ih n'⟩
    | setField name e =>
      exact Expr.honest_eval e fun n' v _ hv => Expr.honest_withReceiver fun o _ => ⟨hv, ih n'⟩
    | setStatic name e => exact Expr.honest_eval e fun n' v _ hv => ⟨hv, ih n'⟩
    | setItem array i e =>
      refine Expr.honest_eval e fun n' v _ hv => Expr.honest_eval array fun n'' w hle _ => ?_
      split
      · exact ⟨hv.mono hle, ih n''⟩
      · exact ih n''
    | setFieldOf object name e =>
      refine Expr.honest_eval e fun n' v _ hv => Expr.honest_eval object fun n'' w hle _ => ?_
      split
      · exact ⟨hv.mono hle, ih n''⟩
      · exact ih n''
    | throw text => exact Expr.honest_failed _ n
    | «return» e =>
      refine Expr.honest_eval e fun n' v _ hv => ?_
      rintro w ⟨⟩
      exact hv
    | reenter =>
      rintro v ⟨⟩
      exact ManagedValue.Below.of_ne (by simp [Expr.int]) n

end Interop.Managed
