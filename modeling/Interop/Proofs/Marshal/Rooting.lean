/-
# Conversions give out handles and do nothing else to them

A conversion to native values takes the table of handles along and gives handles to the objects
that it meets.  It never takes one back, and with the handles that it gave out, or any more, it
would give the same value again (`Rooting`).  This holds of the conversion of a value of any type
and of the arguments of a call.
-/
import Interop.Proofs.Managed.HandleTable
import Interop.Session

namespace Interop.Marshal

open Model Native Managed

/-- A step that uses the table of handles only to give handles to objects, of which `P` tells
which ones it can meet. -/
structure Rooting {ε α : Type} (P : ObjectRef → Prop)
    (f : HandleTable → Except ε α × HandleTable) : Prop where
  /-- What holds of a table and is not lost when an object gets its handle, is not lost. -/
  keeps : ∀ I : HandleTable → Prop, (∀ t o, P o → I t → I (t.root o).2) → ∀ t, I t → I (f t).2
  /-- Once it succeeded, it gives the same again and needs no new handles. -/
  again : ∀ t t' x, (f t).1 = .ok x → (f t).2 ≤ t' → f t' = (.ok x, t')

namespace Rooting

variable {ε ε' α β : Type} {P Q : ObjectRef → Prop}

lemma le {f : HandleTable → Except ε α × HandleTable} (h : Rooting P f) (t : HandleTable) :
    t ≤ (f t).2 :=
  h.keeps (t ≤ ·) (fun t' o _ hle => le_trans hle (t'.le_root o)) t le_rfl

lemma keeps_of_eq {f : HandleTable → Except ε α × HandleTable} (h : Rooting P f)
    {t t' : HandleTable} {r : Except ε α} (heq : f t = (r, t')) (I : HandleTable → Prop)
    (hI : ∀ t o, P o → I t → I (t.root o).2) (ht : I t) : I t' := by
  have hkeep := h.keeps I hI t ht
  rwa [heq] at hkeep

lemma le_of_eq {f : HandleTable → Except ε α × HandleTable} (h : Rooting P f)
    {t t' : HandleTable} {r : Except ε α} (heq : f t = (r, t')) : t ≤ t' := by
  have hle := h.le t
  rwa [heq] at hle

lemma again_of_eq {f : HandleTable → Except ε α × HandleTable} (h : Rooting P f)
    {t t₁ t' : HandleTable} {x : α} (heq : f t = (.ok x, t₁)) (hle : t₁ ≤ t') :
    f t' = (.ok x, t') :=
  h.again t t' x (by rw [heq]) (by rwa [heq])

lemma reachable_of_eq {f : HandleTable → Except ε α × HandleTable} (h : Rooting P f)
    {t t' : HandleTable} {r : Except ε α} (heq : f t = (r, t')) (ht : t.Reachable) :
    t'.Reachable :=
  h.keeps_of_eq heq HandleTable.Reachable (fun _ o _ ht => ht.root o) ht

lemma mono {f : HandleTable → Except ε α × HandleTable} (h : Rooting P f)
    (hPQ : ∀ o, P o → Q o) : Rooting Q f :=
  ⟨fun I hI => h.keeps I fun t o ho => hI t o (hPQ o ho), h.again⟩

/-- A step that does not look at the handles. -/
lemma pure (r : Except ε α) : Rooting P fun t => (r, t) :=
  ⟨fun _ _ _ h => h, fun _ t' _ h _ => congrArg (·, t') h⟩

lemma of_eq {f g : HandleTable → Except ε α × HandleTable} (h : ∀ t, f t = g t)
    (hg : Rooting P g) : Rooting P f := by
  rwa [show f = g from funext h]

/-- To give an object its handle. -/
lemma root {o : ObjectRef} (ho : P o) (g : Handle → α) :
    Rooting P fun t => ((.ok (g (t.root o).1) : Except ε α), (t.root o).2) := by
  refine ⟨fun I hI t => hI t o ho, ?_⟩
  intro t t' x hx hle
  rw [HandleTable.root_of_le hle]
  exact congrArg (·, t') hx

/-- A step whose value is changed. -/
lemma map {f : HandleTable → Except ε α × HandleTable} (h : Rooting P f) (g : α → β) :
    Rooting P fun t => ((f t).1.map g, (f t).2) := by
  refine ⟨h.keeps, ?_⟩
  intro t t' y hy hle
  cases hx : (f t).1 with
  | error e => rw [hx] at hy; cases hy
  | ok x =>
    rw [h.again t t' x hx hle]
    rw [hx] at hy
    exact congrArg (·, t') hy

/-- A step after which, if it succeeds, another follows. -/
lemma bind {f : HandleTable → Except ε α × HandleTable}
    {g : α → HandleTable → Except ε' β × HandleTable} (err : ε → ε') (hf : Rooting P f)
    (hg : ∀ x, Rooting P (g x)) :
    Rooting P fun t =>
      match f t with
      | (.error e, t) => (.error (err e), t)
      | (.ok x, t) => g x t := by
  refine ⟨?_, ?_⟩
  · intro I hI t ht
    have hkeep := hf.keeps I hI t ht
    split
    · rename_i heq
      rwa [heq] at hkeep
    · rename_i x t₁ heq
      rw [heq] at hkeep
      exact (hg x).keeps I hI t₁ hkeep
  · intro t t' y hy hle
    split at hy
    · cases hy
    · rename_i x t₁ heq
      rw [heq] at hle
      rw [hf.again_of_eq heq (le_trans ((hg x).le t₁) hle)]
      exact (hg x).again t₁ t' y hy hle

end Rooting

lemma rooting_writeAll {P : ObjectRef → Prop} {write : HandleTable → ManagedValue →
    Except ConversionFault NativeValue × HandleTable} (vs : List ManagedValue) :
    (∀ v ∈ vs, Rooting P fun t => write t v) →
      ∀ a, Rooting P fun t => writeAll write a t vs := by
  induction vs with
  | nil => exact fun _ a => .pure _
  | cons v vs ih =>
    intro h a
    have hrest := ih fun w hw => h w (List.mem_cons_of_mem _ hw)
    -- a fault of `push` comes after the handles of `v` were given out
    refine .of_eq ?_ ((h v List.mem_cons_self).bind id fun n =>
      (Rooting.pure (push a n)).bind id hrest)
    intro t
    rw [writeAll]
    rcases write t v with ⟨e | n, t'⟩
    · rfl
    · cases hpush : push a n with
      | error e => simp only [hpush, id]
      | ok a' => simp only [hpush]

/-- An object is one of some values, or an element of an array. -/
def Met (heap : Heap) (vs : List ManagedValue) (o : ObjectRef) : Prop :=
  .object o ∈ vs ∨ ∃ r, .object o ∈ heap.items r

lemma Met.of_subset {heap : Heap} {vs ws : List ManagedValue} {o : ObjectRef}
    (h : Met heap vs o) (hsub : ∀ p, .object p ∈ vs → .object p ∈ ws) : Met heap ws o :=
  h.imp_left (hsub o)

/-- The conversion of a value of any type gives out handles and does nothing else to them. -/
lemma rooting_toNative (m : BindingModel) (heap : Heap) (type : ManagedType) :
    ∀ v, Rooting (Met heap [v]) fun t => toNative m heap type t v := by
  induction type with
  | void => exact fun v => .pure _
  | primitive p =>
    intro v
    simp only [toNative]
    cases v <;> exact .pure _
  | string =>
    intro v
    simp only [toNative]
    cases v with
    | string s =>
      dsimp only
      cases ConstText.ofText? s <;> exact .pure _
    | _ => exact .pure _
  | enum path =>
    intro v
    simp only [toNative]
    cases m.enum? path with
    | none => exact .pure _
    | some e =>
      cases v with
      | enum w =>
        dsimp only
        split
        · exact .pure _
        · exact .pure _
      | scalar s => cases s <;> exact .pure _
      | _ => exact .pure _
  | object path =>
    intro v
    simp only [toNative]
    cases v with
    | object o =>
      -- of all types, this is where handles come from
      dsimp only
      split
      · exact .root (Or.inl List.mem_cons_self) _
      · exact .pure _
    | _ => exact .pure _
  | array element ih =>
    intro v
    simp only [toNative]
    cases v with
    | array ref =>
      dsimp only
      cases nativeKind m element with
      | error e => exact .pure _
      | ok kind =>
        dsimp only
        cases NativeArray.new? kind with
        | none => exact .pure _
        | some a =>
          refine (rooting_writeAll (heap.items ref) ?_ a).map _
          intro w hw
          refine (ih w).mono ?_
          rintro o (ho | ho)
          · exact Or.inr ⟨ref, List.mem_singleton.mp ho ▸ hw⟩
          · exact Or.inr ho
    | _ => exact .pure _

/-- So does the conversion of the arguments of a call. -/
lemma rooting_writeArguments (m : BindingModel) (heap : Heap) (ps : List BoundParam) :
    ∀ vs, Rooting (Met heap vs) fun t => Session.writeArguments m heap t ps vs := by
  induction ps with
  | nil => exact fun vs => .pure _
  | cons p ps ih =>
    intro vs
    have hhead : ∀ o, Met heap [vs.head?.getD .null] o → Met heap vs o := by
      intro o ho
      refine ho.of_subset ?_
      intro p hp
      cases vs with
      | nil => cases List.mem_singleton.mp hp
      | cons v vs =>
        rw [List.mem_singleton.mp hp]
        exact List.mem_cons_self
    have htail : ∀ o, Met heap vs.tail o → Met heap vs o :=
      fun o ho => ho.of_subset fun _ hp => List.mem_of_mem_tail hp
    by_cases href : p.direction.isByRef = true
    · refine .of_eq ?_ (((rooting_toNative m heap p.type (vs.head?.getD .null)).mono hhead).bind
        (p.name, ·) fun n => ((ih vs.tail).mono htail).map (some n :: ·))
      intro t
      rw [Session.writeArguments, if_pos href]
      rcases toNative m heap p.type t (vs.head?.getD .null) with ⟨e | n, t₁⟩
      · rfl
      · dsimp only
        rcases Session.writeArguments m heap t₁ ps vs.tail with ⟨e | ns, t₂⟩ <;> rfl
    · refine .of_eq ?_ (((ih vs.tail).mono htail).map (none :: ·))
      intro t
      rw [Session.writeArguments, if_neg href]
      rcases Session.writeArguments m heap t ps vs.tail with ⟨e | ns, t₁⟩ <;> rfl

end Interop.Marshal
