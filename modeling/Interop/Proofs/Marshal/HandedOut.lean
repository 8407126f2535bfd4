/-
# Which objects get handles

The objects that a conversion gives handles to are those that the type of the value asks for, in the
order in which they stand in it (`objectsOf`).  A conversion that succeeds gives handles to all of
them; one that fails has given handles to those that came before the fault, and takes none back
(`HandsOut`).  What was written for an object is its handle.
-/
import Interop.Proofs.Marshal.HandleFaults

namespace Interop

open Model Native Managed Marshal

namespace Managed.HandleTable

/-- The table after some objects got their handles, one after the other. -/
def rootAll (t : HandleTable) (os : List ObjectRef) : HandleTable :=
  os.foldl (fun t o => (t.root o).2) t

lemma rootAll_append (t : HandleTable) (os ps : List ObjectRef) :
    t.rootAll (os ++ ps) = (t.rootAll os).rootAll ps := List.foldl_append

lemma le_rootAll (os : List ObjectRef) : ∀ t : HandleTable, t ≤ t.rootAll os := by
  induction os with
  | nil => exact le_refl
  | cons o os ih => exact fun t => (t.le_root o).trans (ih _)

lemma mem_slots_rootAll (os : List ObjectRef) :
    ∀ {t : HandleTable} {p : ObjectRef}, p ∈ (t.rootAll os).slots → p ∈ t.slots ∨ p ∈ os := by
  induction os with
  | nil => exact fun h => Or.inl h
  | cons o os ih =>
    intro t p h
    rcases ih h with h | h
    · rcases mem_slots_root h with h | rfl
      · exact Or.inl h
      · exact Or.inr List.mem_cons_self
    · exact Or.inr (List.mem_cons_of_mem _ h)

lemma exists_get?_rootAll {os : List ObjectRef} {o : ObjectRef} (ho : o ∈ os) (t : HandleTable) :
    ∃ h, (t.rootAll os).byObject.get? o = some h := by
  obtain ⟨before, after, rfl⟩ := List.append_of_mem ho
  rw [rootAll_append]
  exact ⟨_, (le_rootAll after _).2 _ _ ((t.rootAll before).get?_root o)⟩

/-- The table stays as it is exactly if all the objects have their handles already. -/
lemma rootAll_eq_self_iff {t : HandleTable} {os : List ObjectRef} :
    t.rootAll os = t ↔ ∀ o ∈ os, ∃ h, t.byObject.get? o = some h := by
  constructor
  · intro h o ho
    obtain ⟨k, hk⟩ := t.exists_get?_rootAll ho
    exact ⟨k, h ▸ hk⟩
  · induction os with
    | nil => exact fun _ => rfl
    | cons o os ih =>
      intro h
      obtain ⟨k, hk⟩ := h o List.mem_cons_self
      rw [rootAll, List.foldl_cons, root_of_get? hk]
      exact ih fun p hp => h p (List.mem_cons_of_mem _ hp)

end Managed.HandleTable

namespace Marshal

/-- The objects in a value that a type asks for, in the order in which they stand in it. -/
def objectsOf (heap : Heap) : ManagedType → ManagedValue → List ObjectRef
  | .object _, .object o => [o]
  | .array element, .array r => (heap.items r).flatMap (objectsOf heap element)
  | _, _ => []

/-- The objects in the arguments passed by reference, in the order of the parameters. -/
def objectsOfArguments (heap : Heap) : List BoundParam → List ManagedValue → List ObjectRef
  | [], _ => []
  | p :: ps, vs =>
    (if p.direction.isByRef then objectsOf heap p.type (vs.head?.getD .null) else []) ++
      objectsOfArguments heap ps vs.tail

/-! ### Conversions -/

/-- A step gives handles to some objects, in their order: to all of them if it succeeds, and to some
first ones of them if it fails. -/
structure HandsOut {ε α : Type} (os : List ObjectRef)
    (f : HandleTable → Except ε α × HandleTable) : Prop where
  ok : ∀ t x, (f t).1 = .ok x → (f t).2 = t.rootAll os
  error : ∀ t e, (f t).1 = .error e → ∃ done, done <+: os ∧ (f t).2 = t.rootAll done

namespace HandsOut

variable {ε ε' α β : Type} {os ps : List ObjectRef}

lemma of_eq {f g : HandleTable → Except ε α × HandleTable} (h : ∀ t, f t = g t)
    (hg : HandsOut os g) : HandsOut os f := by
  rwa [show f = g from funext h]

/-- A step that does not look at the handles. -/
lemma pure (r : Except ε α) : HandsOut [] fun t => (r, t) :=
  ⟨fun _ _ _ => rfl, fun _ _ _ => ⟨[], List.prefix_refl _, rfl⟩⟩

/-- A step that fails before any object has its turn. -/
lemma refused (os : List ObjectRef) (e : ε) :
    HandsOut os fun t => ((.error e : Except ε α), t) := by
  refine ⟨?_, fun _ _ _ => ⟨[], List.nil_prefix, rfl⟩⟩
  intro t x hx
  cases hx

lemma root (o : ObjectRef) (g : Handle → α) :
    HandsOut [o] fun t => ((.ok (g (t.root o).1) : Except ε α), (t.root o).2) := by
  refine ⟨fun _ _ _ => rfl, ?_⟩
  intro t e he
  cases he

lemma map {f : HandleTable → Except ε α × HandleTable} (h : HandsOut os f) (g : α → β) :
    HandsOut os fun t => ((f t).1.map g, (f t).2) := by
  constructor
  · intro t y hy
    cases hx : (f t).1 with
    | error e => rw [hx] at hy; cases hy
    | ok x => exact h.ok t x hx
  · intro t e he
    cases hx : (f t).1 with
    | error e' => exact h.error t e' hx
    | ok x => rw [hx] at he; cases he

lemma bind {f : HandleTable → Except ε α × HandleTable}
    {g : α → HandleTable → Except ε' β × HandleTable} (err : ε → ε') (hf : HandsOut os f)
    (hg : ∀ x, HandsOut ps (g x)) :
    HandsOut (os ++ ps) fun t =>
      match f t with
      | (.error e, t) => (.error (err e), t)
      | (.ok x, t) => g x t := by
  constructor
  · intro t y hy
    split at hy
    · cases hy
    · rename_i x t₁ heq
      have hfirst := hf.ok t x (by rw [heq])
      rw [heq] at hfirst
      rw [HandleTable.rootAll_append, ← hfirst]
      exact (hg x).ok t₁ y hy
  · intro t e he
    split at he
    · rename_i e' t₁ heq
      obtain ⟨done, hdone, hfirst⟩ := hf.error t e' (by rw [heq])
      rw [heq] at hfirst
      exact ⟨done, hdone.trans (List.prefix_append _ _), hfirst⟩
    · rename_i x t₁ heq
      have hfirst := hf.ok t x (by rw [heq])
      rw [heq] at hfirst
      obtain ⟨done, hdone, hrest⟩ := (hg x).error t₁ e he
      refine ⟨os ++ done, (List.prefix_append_right_inj os).mpr hdone, ?_⟩
      rw [hrest, HandleTable.rootAll_append, ← hfirst]

end HandsOut

lemma handsOut_writeAll {objects : ManagedValue → List ObjectRef} {write : HandleTable →
    ManagedValue → Except ConversionFault NativeValue × HandleTable}
    (h : ∀ v, HandsOut (objects v) fun t => write t v) (vs : List ManagedValue) :
    ∀ a, HandsOut (vs.flatMap objects) fun t => writeAll write a t vs := by
  induction vs with
  | nil => exact fun a => .pure _
  | cons v vs ih =>
    intro a
    -- a fault of `push` comes after the handles of `v` were given out
    refine .of_eq ?_ ((h v).bind id fun n => (HandsOut.pure (push a n)).bind id ih)
    intro t
    rw [writeAll]
    rcases write t v with ⟨e | n, t'⟩
    · rfl
    · cases hpush : push a n with
      | error e => simp only [hpush, id]
      | ok a' => simp only [hpush]

/-- The conversion of a value gives handles to the objects in it. -/
lemma handsOut_toNative (m : BindingModel) (heap : Heap) (type : ManagedType) :
    ∀ v, HandsOut (objectsOf heap type v) fun t => toNative m heap type t v := by
  induction type with
  | void => exact fun v => .pure _
  | primitive p =>
    intro v
    simp only [toNative, objectsOf]
    cases v <;> exact .pure _
  | string =>
    intro v
    simp only [toNative, objectsOf]
    cases v with
    | string s =>
      dsimp only
      cases ConstText.ofText? s <;> exact .pure _
    | _ => exact .pure _
  | enum path =>
    intro v
    simp only [toNative, objectsOf]
    cases m.enum? path with
    | none => exact .pure _
    | some e =>
      cases v with
      | enum w =>
        dsimp only
        split
        · exact .pure _
        · exact .pure _
      | scalar s => cases s <;> exact .pure _
      | _ => exact .pure _
  | object path =>
    intro v
    simp only [toNative]
    cases v with
    | object o =>
      dsimp only [objectsOf]
      split
      · exact .root o _
      · exact .refused _ _
    | _ => exact .pure _
  | array element ih =>
    intro v
    simp only [toNative]
    cases v with
    | array ref =>
      dsimp only [objectsOf]
      cases nativeKind m element with
      | error e => exact .refused _ _
      | ok kind =>
        dsimp only
        cases NativeArray.new? kind with
        | none => exact .refused _ _
        | some a => exact (handsOut_writeAll ih (heap.items ref) a).map _
    | _ => exact .pure _

/-- The conversion of the arguments of a call gives handles to the objects in those that are passed
by reference. -/
lemma handsOut_writeArguments (m : BindingModel) (heap : Heap) (ps : List BoundParam) :
    ∀ vs, HandsOut (objectsOfArguments heap ps vs) fun t =>
      Session.writeArguments m heap t ps vs := by
  induction ps with
  | nil => exact fun vs => .pure _
  | cons p ps ih =>
    intro vs
    by_cases href : p.direction.isByRef = true
    · rw [objectsOfArguments, if_pos href]
      refine .of_eq ?_ ((handsOut_toNative m heap p.type (vs.head?.getD .null)).bind
        (p.name, ·) fun n => (ih vs.tail).map (some n :: ·))
      intro t
      rw [Session.writeArguments, if_pos href]
      rcases toNative m heap p.type t (vs.head?.getD .null) with ⟨e | n, t₁⟩
      · rfl
      · dsimp only
        rcases Session.writeArguments m heap t₁ ps vs.tail with ⟨e | ns, t₂⟩ <;> rfl
    · rw [objectsOfArguments, if_neg href, List.nil_append]
      refine .of_eq ?_ ((ih vs.tail).map (none :: ·))
      intro t
      rw [Session.writeArguments, if_neg href]
      rcases Session.writeArguments m heap t ps vs.tail with ⟨e | ns, t₁⟩ <;> rfl

/-! ### What was written -/

/-- A value that was written carries the handle of every object in what it was written for. -/
lemma exists_carries_of_mem_objectsOf {m : BindingModel} {heap : Heap} {type : ManagedType}
    {t t' t'' : HandleTable} {w : ManagedValue} {n : NativeValue} (ht : t.Reachable)
    (hw : Writes m heap type t w n t') (hle : t' ≤ t'') {o : ObjectRef}
    (ho : o ∈ objectsOf heap type w) : ∃ path, Carries type n (t''.root o).1 path := by
  cases hw with
  | object _ _ =>
    obtain rfl := List.mem_singleton.mp ho
    rw [HandleTable.root_of_le hle]
    exact ⟨_, .handle _ _⟩
  | @array element r kind a b _ _ hkind hnew hwrite =>
    obtain ⟨v, hv, ho⟩ := List.mem_flatMap.mp ho
    cases element with
    | object path =>
      cases v with
      | object p =>
        obtain rfl := List.mem_singleton.mp ho
        cases hkind
        cases hnew
        obtain ⟨_, es, rfl, hes⟩ := of_writeAll (rooting_toNative m heap _) _ ht hwrite
        obtain ⟨e, he, n, t₁, t₂, _, hn, hle₂, helement⟩ := exists_of_mem_forall₂ hes.flip hv
        cases toNative_eq_ok_iff.mp hn
        cases helement
        rw [HandleTable.root_of_le (hle₂.trans hle)]
        exact ⟨path, .element path he⟩
      | _ => cases ho
    | array element =>
      -- there are no arrays of arrays
      cases hkind
      cases hnew
    | _ => cases v <;> cases ho
  | _ => cases ho

end Marshal

end Interop
