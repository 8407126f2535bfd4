/-
# Native buffers are sequences

A program makes arrays, adds to them, copies and frees them, and in between native code writes what
it likes to their public fields.  Each array then holds just the values that were added to it, in
order, as if it were a list of values of one kind.  To see this, each operation is given a meaning
on such lists, which knows nothing of storage or of public fields; the arrays stay in step with the
lists from one operation to the next, and so along every run.

A text buffer holds what it was last given and what was added since, with a NUL behind it.

Main definitions:
* `ArrayOp.step` is what an operation does, and `ArrayOp.meaning` what it means for the lists;
* `NativeArray.Holds` compares an array with a list.

Main result: `buffers_are_sequences`.
-/
import Interop.Marshal
import Interop.Proofs.Except
import Mathlib.Data.List.Basic
import Mathlib.Data.Option.Basic
import Mathlib.Logic.Function.Basic

namespace Interop.Native

/-! ### Stores -/

/-- What a program knows by numbers. -/
abbrev Store (α : Type) := Nat → Option α

namespace Store

variable {α β : Type}

/-- What was made takes the place of whatever had the number, if it could be made. -/
def create (s : Store α) (id : Nat) : Option α → Store α
  | some a => Function.update s id (some a)
  | none => s

/-- Changes what has the number, if there is anything. -/
def change (s : Store α) (id : Nat) (f : α → α) : Store α :=
  Function.update s id ((s id).map f)

def free (s : Store α) (id : Nat) : Store α := Function.update s id none

/-- Two stores have related things under the same numbers. -/
def Related (R : α → β → Prop) (s : Store α) (t : Store β) : Prop :=
  ∀ id, Option.Rel R (s id) (t id)

variable {R : α → β → Prop} {s : Store α} {t : Store β}

lemma Related.update (h : Related R s t) (id : Nat) {a : Option α} {b : Option β}
    (hab : Option.Rel R a b) : Related R (Function.update s id a) (Function.update t id b) := by
  intro k
  by_cases hk : k = id
  · subst hk
    simpa using hab
  · simpa [Function.update_of_ne hk] using h k

lemma Related.create (h : Related R s t) (id : Nat) {a : Option α} {b : Option β}
    (hab : Option.Rel R a b) : Related R (s.create id a) (t.create id b) := by
  cases hab with
  | none => exact h
  | some hab => exact h.update id (.some hab)

lemma Related.change (h : Related R s t) (id : Nat) {f : α → α} {g : β → β}
    (hfg : ∀ a b, s id = some a → R a b → R (f a) (g b)) :
    Related R (s.change id f) (t.change id g) := by
  refine h.update id ?_
  have hid := h id
  generalize hs : s id = a, t id = b at hid ⊢
  cases hid with
  | none => exact .none
  | some hab => exact .some (hfg _ _ hs hab)

lemma Related.change_left (h : Related R s t) (id : Nat) {f : α → α}
    (hf : ∀ a b, R a b → R (f a) b) : Related R (s.change id f) t := by
  have hchange := h.change id (f := f) (g := fun b => b) fun a b _ => hf a b
  rwa [Store.change, Store.change, Option.map_id', Function.update_eq_self] at hchange

section

variable {id k : Nat} {made : Option α} {f : α → α} {a : α}

lemma create_of_ne (hk : k ≠ id) : s.create id made k = s k := by
  cases made with
  | none => rfl
  | some a => exact Function.update_of_ne hk ..

lemma change_of_ne (hk : k ≠ id) : s.change id f k = s k := Function.update_of_ne hk ..

lemma change_eq_self (h : ∀ a, s id = some a → f a = a) : s.change id f = s := by
  refine Function.update_eq_self_iff.mpr ?_
  cases hid : s id with
  | none => rfl
  | some a => rw [Option.map_some, h a hid]

/-- What was not there before was made. -/
lemma of_create (h : s.create id made k = some a) (hnew : s k ≠ some a) : made = some a := by
  by_cases hk : k = id
  · subst hk
    cases made with
    | none => exact absurd h hnew
    | some b => rwa [create, Function.update_self] at h
  · exact absurd ((create_of_ne hk).symm.trans h) hnew

/-- What was not there before comes of something else that was. -/
lemma of_change (h : s.change id f k = some a) (hnew : s k ≠ some a) :
    ∃ b, f b = a ∧ b ≠ a := by
  by_cases hk : k = id
  · subst hk
    rw [change, Function.update_self] at h
    obtain ⟨b, hb, hfb⟩ := Option.map_eq_some_iff.mp h
    refine ⟨b, hfb, ?_⟩
    rintro rfl
    exact hnew hb
  · exact absurd ((change_of_ne hk).symm.trans h) hnew

lemma of_free (h : s.free id k = some a) : s k = some a := by
  rw [free, Function.update_apply] at h
  split at h
  · cases h
  · exact h

end

end Store

/-! ### Values of one kind -/

/-- Some values of one kind. -/
structure Sequence where
  kind : Kind
  values : List NativeValue

/-- What is held for a value among values of a kind, if it can be: text becomes constant, null
stands for a text or a handle that is not there, and any other value must have the kind itself. -/
def Kind.held? (kind : Kind) : NativeValue → Option NativeValue
  | .null => if kind = .string ∨ kind = .handle then some .null else none
  | .text b => if kind = .string then (ConstText.ofOctets? b.octets).map .str else none
  | v => if kind.isElement = true ∧ v.kind = kind then some v else none

/-- Why a value is not held: it is a text with a NUL, or it has another kind. -/
def Kind.refusal (kind : Kind) (v : NativeValue) : Marshal.ConversionFault :=
  if kind = .string ∧ v.kind = .string then .invalidString .interiorNul
  else .elementMismatch kind v.kind

/-- An array is a sequence: whoever asks for its length or for what stands at a place, in whatever
way, is told of the values of the sequence. -/
structure NativeArray.Holds (a : NativeArray) (q : Sequence) : Prop where
  kind : a.kind = q.kind
  length : a.length = q.values.length
  get? : ∀ i, (a.get? i).map .ofElement = q.values[i]?
  offset? : ∀ i, (a.offset? i).isSome = true ↔ i < q.values.length
  ofKind : ∀ v ∈ q.values, q.kind.held? v = some v

/-! ### Operations -/

/-- What is done with arrays. -/
inductive ArrayOp
  | new (id : Nat) (kind : Kind)
  | ofScalars (id : Nat) (p : Primitive) (items : List Scalar)
  | ofValues (id : Nat) (kind : Kind) (values : List NativeValue)
  | push (id : Nat) (v : NativeValue)
  /-- Adds the elements of a block of memory.  There is none at the null pointer. -/
  | append (id : Nat) (block : Option (List Element))
  | copy (id source : Nat)
  | free (id : Nat)
  | writeLength (id n : Nat)
  | writeKind (id code : Nat)

namespace ArrayOp

/-- The array that an operation is about. -/
def target : ArrayOp → Nat
  | new id _ | ofScalars id _ _ | ofValues id _ _ | push id _ | append id _ | copy id _ | free id
  | writeLength id _ | writeKind id _ => id

/-- Tells whether native code writes to a public field. -/
def isWrite : ArrayOp → Bool
  | writeLength .. | writeKind .. => true
  | _ => false

/-- What an operation does.  One that fails does nothing. -/
def step (s : Store NativeArray) : ArrayOp → Store NativeArray
  | new id kind => s.create id (NativeArray.new? kind)
  | ofScalars id p items => s.create id (some (.ofScalars p items))
  | ofValues id kind values => s.create id (Marshal.arrayOf kind values).toOption
  | push id v => s.change id fun a => (Marshal.push a v).toOption.getD a
  | append id block => s.change id fun a => a.appendBlock (block.getD [])
  | copy id source => s.create id ((s source).map .copy)
  | free id => s.free id
  | writeLength id n => s.change id (·.writeLength n)
  | writeKind id code => s.change id (·.writeKind code)

/-- What an operation means.  Nothing that native code writes has a meaning. -/
def meaning (t : Store Sequence) : ArrayOp → Store Sequence
  | new id kind => t.create id (if kind.isElement then some ⟨kind, []⟩ else none)
  | ofScalars id p items => t.create id (some ⟨.scalar p, items.map .scalar⟩)
  | ofValues id kind values =>
    t.create id (if kind.isElement then (values.mapM kind.held?).map (⟨kind, ·⟩) else none)
  | push id v => t.change id fun q => ⟨q.kind, q.values ++ (q.kind.held? v).toList⟩
  | append id block => t.change id fun q => ⟨q.kind, q.values ++ (block.getD []).map .ofElement⟩
  | copy id source => t.create id (t source)
  | free id => t.free id
  | writeLength .. | writeKind .. => t

/-- What callers have to see to: scalars have the type that is said, and a block of memory holds
elements of the kind of the array. -/
def Lawful (s : Store NativeArray) : ArrayOp → Prop
  | ofScalars _ p items => ∀ x ∈ items, x.type = p
  | append id block => ∀ a, s id = some a → ∀ e ∈ block.getD [], e.fits a.kind = true
  | _ => True

end ArrayOp

/-! ### One operation -/

/-- How an array and a sequence stay in step. -/
structure Tracks (a : NativeArray) (q : Sequence) : Prop where
  kind : a.kind = q.kind
  values : a.elements.map .ofElement = q.values
  fits : ∀ e ∈ a.elements, e.fits a.kind = true

lemma elementOf_ofElement (kind : Kind) (e : Element) :
    Marshal.elementOf kind (.ofElement e) = if e.fits kind = true then .ok e
      else .error (.elementMismatch kind (NativeValue.ofElement e).kind) := by
  cases e <;> simp [Marshal.elementOf, Element.fits, NativeValue.ofElement]

lemma held?_ofElement (kind : Kind) (e : Element) :
    kind.held? (.ofElement e) = if e.fits kind = true then some (.ofElement e) else none := by
  cases e with
  | scalar s =>
    by_cases hkind : kind = .scalar s.type
    · simp [NativeValue.ofElement, Kind.held?, NativeValue.kind, Kind.isElement, Element.fits,
        hkind]
    · simp [NativeValue.ofElement, Kind.held?, NativeValue.kind, Element.fits, hkind, Ne.symm hkind]
  | text | handle => cases kind <;> rfl
  | null => simp [NativeValue.ofElement, Kind.held?, Element.fits]

/-- An element that does not fit has another kind. -/
lemma refusal_ofElement {kind : Kind} {e : Element} (h : ¬ e.fits kind = true) :
    kind.refusal (.ofElement e) = .elementMismatch kind (NativeValue.ofElement e).kind := by
  refine if_neg ?_
  rintro ⟨rfl, hkind⟩
  cases e with
  | text => exact h rfl
  | scalar | handle | null => cases hkind

/-- A value becomes an element that stands for what is held of it, or is refused. -/
lemma elementOf_cases (kind : Kind) (v : NativeValue) :
    (∃ e, Marshal.elementOf kind v = .ok e ∧ kind.held? v = some (.ofElement e) ∧
      e.fits kind = true) ∨
    (Marshal.elementOf kind v = .error (kind.refusal v) ∧ kind.held? v = none) := by
  have hself (e : Element) : (∃ e', Marshal.elementOf kind (.ofElement e) = .ok e' ∧
        kind.held? (.ofElement e) = some (.ofElement e') ∧ e'.fits kind = true) ∨
      (Marshal.elementOf kind (.ofElement e) = .error (kind.refusal (.ofElement e)) ∧
        kind.held? (.ofElement e) = none) := by
    rw [elementOf_ofElement, held?_ofElement]
    by_cases hfits : e.fits kind = true
    · exact .inl ⟨e, if_pos hfits, if_pos hfits, hfits⟩
    · exact .inr ⟨by rw [if_neg hfits, refusal_ofElement hfits], if_neg hfits⟩
  cases v with
  | scalar s => exact hself (.scalar s)
  | str t => exact hself (.text t)
  | handle h => exact hself (.handle h)
  | null => exact hself .null
  | void | array =>
    -- the kinds of these are the kinds of no elements
    refine .inr ⟨by simp [Marshal.elementOf, Kind.refusal, NativeValue.kind], ?_⟩
    cases kind <;> rfl
  | text b =>
    by_cases hkind : kind = .string
    · subst hkind
      cases hb : ConstText.ofOctets? b.octets with
      | some t =>
        exact .inl ⟨.text t, by simp [Marshal.elementOf, hb], by simp [Kind.held?, hb]; rfl, rfl⟩
      | none =>
        exact .inr ⟨by simp [Marshal.elementOf, hb, Kind.refusal, NativeValue.kind],
          by simp [Kind.held?, hb]⟩
    · exact .inr ⟨by simp [Marshal.elementOf, hkind, Kind.refusal, NativeValue.kind],
        by simp [Kind.held?, hkind]⟩

/-- A value is added as an element, or it is refused. -/
lemma push_cases (a : NativeArray) (v : NativeValue) :
    (∃ e, Marshal.push a v = .ok (a.push e) ∧ a.kind.held? v = some (.ofElement e) ∧
      e.fits a.kind = true) ∨
    (Marshal.push a v = .error (a.kind.refusal v) ∧ a.kind.held? v = none) := by
  rw [Marshal.push]
  rcases elementOf_cases a.kind v with ⟨e, he, hheld, hfits⟩ | ⟨he, hheld⟩
  · exact .inl ⟨e, by rw [he]; rfl, hheld, hfits⟩
  · exact .inr ⟨by rw [he]; rfl, hheld⟩

lemma isSome_offset?_iff {a : NativeArray} {i : Nat} :
    (a.offset? i).isSome = true ↔ i < a.length := by
  unfold NativeArray.offset?
  split <;> simp [*]

namespace Tracks

variable {a : NativeArray} {q : Sequence}

lemma holds (h : Tracks a q) : a.Holds q where
  kind := h.kind
  length := by rw [← h.values, List.length_map, NativeArray.length]
  get? i := by rw [← h.values, List.getElem?_map, NativeArray.get?]
  offset? i := by
    rw [← h.values, List.length_map]
    exact isSome_offset?_iff
  ofKind := by
    rw [← h.values, ← h.kind, List.forall_mem_map]
    exact fun e he => (held?_ofElement a.kind e).trans (if_pos (h.fits e he))

/-- More elements that fit stand for more values. -/
lemma append (h : Tracks a q) {es : List Element} (hes : ∀ e ∈ es, e.fits a.kind = true)
    (n : Nat) : Tracks ⟨a.kind, a.elements ++ es, n, a.publicKind⟩
      ⟨q.kind, q.values ++ es.map .ofElement⟩ where
  kind := h.kind
  values := by rw [List.map_append, h.values]
  fits := List.forall_mem_append.mpr ⟨h.fits, hes⟩

lemma ofStorage {kind : Kind} {es : List Element} (h : ∀ e ∈ es, e.fits kind = true) :
    Tracks (.ofStorage kind es) ⟨kind, es.map .ofElement⟩ := ⟨rfl, rfl, h⟩

lemma appendBlock (h : Tracks a q) {es : List Element} (hes : ∀ e ∈ es, e.fits a.kind = true) :
    Tracks (a.appendBlock es) ⟨q.kind, q.values ++ es.map .ofElement⟩ := by
  rw [NativeArray.appendBlock]
  split
  · rename_i hempty
    rw [List.isEmpty_iff.mp hempty, List.map_nil, List.append_nil]
    exact h
  · exact h.append hes _

lemma copy (h : Tracks a q) : Tracks a.copy q := ⟨h.kind, h.values, h.fits⟩

lemma push (h : Tracks a q) {e : Element} (he : e.fits a.kind = true) :
    Tracks (a.push e) ⟨q.kind, q.values ++ [.ofElement e]⟩ :=
  h.append (List.forall_mem_singleton.mpr he) _

/-- Values are added one after the other until one of them is refused. -/
lemma pushAll (h : Tracks a q) (values : List NativeValue) :
    Option.Rel Tracks (values.foldlM Marshal.push a).toOption
      ((values.mapM q.kind.held?).map fun held => ⟨q.kind, q.values ++ held⟩) := by
  induction values generalizing a q with
  | nil =>
    refine .some ?_
    simpa using h
  | cons v values ih =>
    rw [List.foldlM_cons, List.mapM_cons]
    rcases push_cases a v with ⟨e, hpush, hheld, he⟩ | ⟨hpush, hheld⟩ <;> rw [h.kind] at hheld
    · -- the values before the others are now one more
      have hrest := ih (h.push he)
      rw [hpush, hheld]
      cases hheld : values.mapM q.kind.held? with
      | none =>
        rw [hheld] at hrest
        exact hrest
      | some held =>
        rw [hheld, Option.map_some, List.append_assoc] at hrest
        exact hrest
    · rw [hpush, hheld]
      exact .none

end Tracks

namespace ArrayOp

variable {s : Store NativeArray} {t : Store Sequence}

/-- Each operation keeps the arrays in step with the sequences. -/
lemma tracks_step (h : Store.Related Tracks s t) {op : ArrayOp} (hop : op.Lawful s) :
    Store.Related Tracks (op.step s) (op.meaning t) := by
  cases op with
  | new id kind =>
    refine h.create id ?_
    rw [NativeArray.new?]
    split
    · exact .some (.ofStorage (List.forall_mem_nil _))
    · exact .none
  | ofScalars id p items =>
    have hfits : ∀ e ∈ items.map Element.scalar, e.fits (.scalar p) = true := by
      refine List.forall_mem_map.mpr fun x hx => ?_
      rw [Element.fits, hop x hx]
      exact decide_eq_true rfl
    have hitems := Tracks.ofStorage hfits
    rw [List.map_map] at hitems
    exact h.create id (.some hitems)
  | ofValues id kind values =>
    refine h.create id ?_
    rw [Marshal.arrayOf, NativeArray.new?]
    by_cases hkind : kind.isElement = true
    · simp only [hkind, if_true]
      exact (Tracks.ofStorage (List.forall_mem_nil _)).pushAll values
    · simp only [hkind]
      exact .none
  | push id v =>
    refine h.change id fun a q _ ha => ?_
    rcases push_cases a v with ⟨e, hpush, hheld, he⟩ | ⟨hpush, hheld⟩ <;> rw [ha.kind] at hheld
    · rw [hpush, hheld]
      exact ha.push he
    · rw [hpush, hheld, Option.toList_none, List.append_nil]
      exact ha
  | append id block =>
    exact h.change id fun a q ha htracks => htracks.appendBlock (hop a ha)
  | copy id source =>
    refine h.create id ?_
    have hsource := h source
    generalize s source = a, t source = q at hsource
    cases hsource with
    | none => exact .none
    | some ha => exact .some ha.copy
  | free id => exact h.update id .none
  | writeLength id n => exact h.change_left id fun _ _ ha => ⟨ha.kind, ha.values, ha.fits⟩
  | writeKind id code => exact h.change_left id fun _ _ ha => ⟨ha.kind, ha.values, ha.fits⟩

/-- An operation on one array leaves the others alone. -/
lemma step_of_ne {op : ArrayOp} {id : Nat} (h : op.target ≠ id) : op.step s id = s id := by
  have hne : id ≠ op.target := h.symm
  cases op with
  | new | ofScalars | ofValues | copy =>
    rw [step]
    exact Store.create_of_ne hne
  | push | append | writeLength | writeKind =>
    rw [step]
    exact Store.change_of_ne hne
  | free => exact Function.update_of_ne hne ..

end ArrayOp

/-! ### The public length -/

section PublicLength

variable {a b : NativeArray}

lemma publicLength_of_push {v : NativeValue} (h : Marshal.push a v = .ok b) :
    b.publicLength = b.length := by
  rcases push_cases a v with ⟨e, hpush, -⟩ | ⟨hpush, -⟩
  · obtain rfl := Except.ok.inj (hpush.symm.trans h)
    simp [NativeArray.push, NativeArray.length]
  · cases hpush.symm.trans h

lemma publicLength_of_pushAll {values : List NativeValue} (ha : a.publicLength = a.length)
    (h : values.foldlM Marshal.push a = .ok b) : b.publicLength = b.length := by
  induction values generalizing a with
  | nil =>
    obtain rfl := Except.ok.inj h
    exact ha
  | cons v values ih =>
    rw [List.foldlM_cons] at h
    obtain ⟨c, hc, h⟩ := exists_of_bind_ok h
    exact ih (publicLength_of_push hc) h

lemma publicLength_of_arrayOf {kind : Kind} {values : List NativeValue}
    (h : Marshal.arrayOf kind values = .ok a) : a.publicLength = a.length := by
  rw [Marshal.arrayOf, NativeArray.new?] at h
  split at h
  · cases h
  · rename_i hnew
    split at hnew
    · obtain rfl := Option.some.inj hnew
      exact publicLength_of_pushAll rfl h
    · cases hnew

lemma publicLength_appendBlock {es : List Element} (h : a ≠ a.appendBlock es) :
    (a.appendBlock es).publicLength = (a.appendBlock es).length := by
  rw [NativeArray.appendBlock] at h ⊢
  split
  · rename_i hempty
    exact absurd (if_pos hempty).symm h
  · simp [NativeArray.length]

/-- Whatever but a write brings about an array shows its length. -/
lemma publicLength_step {s : Store NativeArray} {op : ArrayOp} {id : Nat}
    (hop : op.isWrite = false) (h : op.step s id = some a) (hnew : s id ≠ some a) :
    a.publicLength = a.length := by
  cases op with
  | new k kind =>
    have hmade := Store.of_create h hnew
    rw [NativeArray.new?] at hmade
    split at hmade
    · obtain rfl := Option.some.inj hmade
      rfl
    · cases hmade
  | ofScalars k p items =>
    obtain rfl := Option.some.inj (Store.of_create h hnew)
    simp [NativeArray.ofScalars, NativeArray.ofStorage, NativeArray.length]
  | ofValues k kind values =>
    exact publicLength_of_arrayOf (eq_ok_of_toOption (Store.of_create h hnew))
  | push k v =>
    obtain ⟨b, hpushed, hchanged⟩ := Store.of_change h hnew
    cases hpush : Marshal.push b v with
    | error e =>
      -- a value that is refused brings about nothing new
      rw [hpush] at hpushed
      exact absurd hpushed hchanged
    | ok c =>
      rw [hpush] at hpushed
      obtain rfl : c = a := hpushed
      exact publicLength_of_push hpush
  | append k block =>
    obtain ⟨b, rfl, hchanged⟩ := Store.of_change h hnew
    exact publicLength_appendBlock hchanged
  | copy k source =>
    obtain ⟨b, -, rfl⟩ := Option.map_eq_some_iff.mp (Store.of_create h hnew)
    rfl
  | free k => exact absurd (Store.of_free h) hnew
  | writeLength | writeKind => cases hop

end PublicLength

/-! ### Copies -/

/-- Tells whether a value is no number. -/
def isNaN : Scalar → Bool
  | .single x => x.isNaN
  | .double x => x.isNaN
  | _ => false

lemma Element.eqv_self_iff {e : Element} :
    e.eqv e = true ↔ ∀ x, e = .scalar x → isNaN x = false := by
  cases e with
  | scalar x => cases x <;> simp [Element.eqv, Scalar.eqv, isNaN, Binary32.numEq, Binary64.numEq]
  | text | handle | null => simp [Element.eqv]

lemma isEqv_self_iff {α : Type} {R : α → α → Bool} {xs : List α} :
    xs.isEqv xs R = true ↔ ∀ x ∈ xs, R x x = true := by
  induction xs with
  | nil => simp [List.isEqv]
  | cons x xs ih => simp [List.isEqv, ih]

/-- A copy is equal to what it is a copy of, unless there is a NaN. -/
lemma copy_eqv_iff {a : NativeArray} :
    a.copy.eqv a = true ↔ ∀ i x, a.get? i = some (.scalar x) → isNaN x = false := by
  have hself : a.copy.eqv a = a.elements.isEqv a.elements Element.eqv := by
    simp [NativeArray.eqv, NativeArray.copy, NativeArray.ofStorage]
  rw [hself, isEqv_self_iff]
  simp only [Element.eqv_self_iff, NativeArray.get?]
  constructor
  · exact fun h i x hi => h _ (List.mem_of_getElem? hi) x rfl
  · rintro h e he x rfl
    obtain ⟨i, hi⟩ := List.mem_iff_getElem?.mp he
    exact h i x hi

/-! ### Runs -/

/-- The arrays that there are after some operations. -/
def arrays (ops : List ArrayOp) : Store NativeArray := ops.foldl ArrayOp.step fun _ => none

/-- The sequences that some operations mean. -/
def sequences (ops : List ArrayOp) : Store Sequence := ops.foldl ArrayOp.meaning fun _ => none

/-- All operations are lawful where they are done. -/
def LawfulFrom (s : Store NativeArray) : List ArrayOp → Prop
  | [] => True
  | op :: ops => op.Lawful s ∧ LawfulFrom (op.step s) ops

lemma tracks_run {s : Store NativeArray} {t : Store Sequence} (h : Store.Related Tracks s t)
    {ops : List ArrayOp} (hops : LawfulFrom s ops) :
    Store.Related Tracks (ops.foldl ArrayOp.step s) (ops.foldl ArrayOp.meaning t) := by
  induction ops generalizing s t with
  | nil => exact h
  | cons op ops ih => exact ih (ArrayOp.tracks_step h hops.1) hops.2

lemma run_of_ne {s : Store NativeArray} {ops : List ArrayOp} {id : Nat}
    (h : ∀ op ∈ ops, op.target ≠ id) : ops.foldl ArrayOp.step s id = s id := by
  induction ops generalizing s with
  | nil => rfl
  | cons op ops ih =>
    obtain ⟨hop, hops⟩ := List.forall_mem_cons.mp h
    exact (ih hops).trans (ArrayOp.step_of_ne hop)

/-! ### Text buffers -/

/-- What is done with a text buffer. -/
inductive TextOp
  | assign (octets : List UInt8)
  | append (octets : List UInt8)
  | writeLength (n : Nat)

namespace TextOp

def step (b : TextBuffer) : TextOp → TextBuffer
  | assign octets => b.assign octets
  | append octets => b.append octets
  | writeLength n => b.writeLength n

def isAssign : TextOp → Bool
  | assign _ => true
  | _ => false

/-- The octets that an operation adds. -/
def appended : TextOp → List UInt8
  | append octets => octets
  | _ => []

end TextOp

/-- A text buffer holds octets: with a NUL behind them, which does not count. -/
structure TextBuffer.Holds (b : TextBuffer) (held : List UInt8) : Prop where
  storage : b.storage = held ++ [0]
  octets : b.octets = held
  length : b.length = held.length

namespace TextBuffer.Holds

variable {b : TextBuffer} {held : List UInt8}

lemma of_storage (h : b.storage = held ++ [0]) : b.Holds held where
  storage := h
  octets := by rw [TextBuffer.octets, h, List.dropLast_concat]
  length := by simp [TextBuffer.length, h]

lemma ofOctets (held : List UInt8) : (TextBuffer.ofOctets held).Holds held := of_storage rfl

lemma step (h : b.Holds held) {op : TextOp} (hop : op.isAssign = false) :
    (op.step b).Holds (held ++ op.appended) := by
  cases op with
  | assign => cases hop
  | append octets =>
    have hstep : (TextOp.append octets).step b = .ofOctets (held ++ octets) := by
      rw [TextOp.step, TextBuffer.append, h.octets]
    rw [hstep]
    exact ofOctets _
  | writeLength n =>
    refine of_storage ?_
    rw [TextOp.appended, List.append_nil]
    · exact h.storage
    · nofun

lemma run (h : b.Holds held) {ops : List TextOp} (hops : ∀ op ∈ ops, op.isAssign = false) :
    (ops.foldl TextOp.step b).Holds (held ++ ops.flatMap TextOp.appended) := by
  induction ops generalizing b held with
  | nil => simpa using h
  | cons op ops ih =>
    obtain ⟨hop, hops⟩ := List.forall_mem_cons.mp hops
    have hrest := ih (h.step hop) hops
    rwa [List.append_assoc] at hrest

end TextBuffer.Holds

/-- Along every run, the arrays are the sequences that the operations mean; a value that cannot be
held is refused, and nothing changes; whatever but a write brings about an array shows its length;
and a copy is equal unless there is a NaN, and stays as it is whatever is done with other arrays.
A text buffer holds what it was last given and all that was added since. -/
theorem buffers_are_sequences (ops : List ArrayOp) (hops : LawfulFrom (fun _ => none) ops) :
    (∀ id, Option.Rel NativeArray.Holds (arrays ops id) (sequences ops id)) ∧
    (∀ id v a, arrays ops id = some a →
      (a.kind.held? v = none → Marshal.push a v = .error (a.kind.refusal v) ∧
        (ArrayOp.push id v).step (arrays ops) = arrays ops) ∧
      (a.kind.held? v ≠ none → ∃ b, Marshal.push a v = .ok b)) ∧
    (∀ (op : ArrayOp) id a, op.isWrite = false → op.step (arrays ops) id = some a →
      arrays ops id ≠ some a → a.publicLength = a.length) ∧
    (∀ id source a (more : List ArrayOp), arrays ops source = some a →
      (∀ op ∈ more, op.target ≠ id) →
        arrays (ops ++ .copy id source :: more) id = some a.copy ∧
        (a.copy.eqv a = true ↔ ∀ i x, a.get? i = some (.scalar x) → isNaN x = false)) ∧
    ∀ b octets (more : List TextOp), (∀ op ∈ more, op.isAssign = false) →
      (more.foldl TextOp.step (.ofOctets octets)).Holds (octets ++ more.flatMap TextOp.appended) ∧
      ∀ before, ((before ++ .assign octets :: more).foldl TextOp.step b).Holds
        (octets ++ more.flatMap TextOp.appended) := by
  have htracks : Store.Related Tracks (arrays ops) (sequences ops) :=
    tracks_run (fun _ => .none) hops
  refine ⟨fun id => ?_, fun id v a ha => ?_, fun op id a => publicLength_step,
    fun id source a more ha hmore => ⟨?_, copy_eqv_iff⟩, fun b octets more hmore => ?_⟩
  · have hid := htracks id
    generalize arrays ops id = a, sequences ops id = q at hid
    cases hid with
    | none => exact .none
    | some h => exact .some h.holds
  · rcases push_cases a v with ⟨e, hpush, hheld, -⟩ | ⟨hpush, hheld⟩
    · exact ⟨fun hnone => absurd (hnone.symm.trans hheld) nofun, fun _ => ⟨_, hpush⟩⟩
    · have hrefused : (ArrayOp.push id v).step (arrays ops) = arrays ops := by
        refine Store.change_eq_self fun b hb => ?_
        obtain rfl := Option.some.inj (ha.symm.trans hb)
        rw [hpush]
        rfl
      exact ⟨fun _ => ⟨hpush, hrefused⟩, fun hsome => absurd hheld hsome⟩
  · rw [arrays, List.foldl_append, List.foldl_cons, run_of_ne hmore, ← arrays, ArrayOp.step, ha]
    exact Function.update_self ..
  · have hrun := (TextBuffer.Holds.ofOctets octets).run hmore
    refine ⟨hrun, fun before => ?_⟩
    rw [List.foldl_append, List.foldl_cons]
    exact hrun

/-- Of texts and what is no text, and with a copy from before the last value. -/
theorem buffers_are_sequences_texts :
    ∃ ops, LawfulFrom (fun _ => none) ops ∧
      ops = [.new 1 .string, .append 1 (some [.text (.ofText "a"), .null]), .writeLength 1 100,
        .push 1 (.text (.ofOctets [98, 0])), .push 1 (.scalar (.bool true)), .copy 2 1,
        .push 1 (.text (.ofOctets [98]))] ∧
      Option.Rel NativeArray.Holds (arrays ops 1)
        (some ⟨.string, [.str (.ofText "a"), .null, .str ⟨[98], by decide⟩]⟩) ∧
      Option.Rel NativeArray.Holds (arrays ops 2)
        (some ⟨.string, [.str (.ofText "a"), .null]⟩) := by
  have hops : LawfulFrom (fun _ => none) [.new 1 .string,
      .append 1 (some [.text (.ofText "a"), .null]), .writeLength 1 100,
      .push 1 (.text (.ofOctets [98, 0])), .push 1 (.scalar (.bool true)), .copy 2 1,
      .push 1 (.text (.ofOctets [98]))] := by
    refine ⟨trivial, fun a ha => ?_, trivial, trivial, trivial, trivial, trivial, trivial⟩
    obtain rfl : NativeArray.ofStorage .string [] = a := Option.some.inj ha
    decide
  have hheld := (buffers_are_sequences _ hops).1
  exact ⟨_, hops, rfl, hheld 1, hheld 2⟩

end Interop.Native
