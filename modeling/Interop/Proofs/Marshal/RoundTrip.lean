/-
# Conversions there and back

For types without fractions the two conversions undo each other.  A native value that was read as
a type is written back in the one form that values of the type have (`Canonical`), and a managed
value that was written as a type is read back as the same value, up to the type of a number
(`Same`).

A conversion of a single value makes no arrays on the heap, and neither direction needs a handle
that is not in the table; so an array is converted element by element in one state.

Main result: `roundTrip`.
-/
import Interop.Proofs.Managed.EnumValue
import Interop.Proofs.Marshal.Rooting
import Interop.Proofs.Marshal.Success
import Interop.Proofs.Model.PassedTypes
import Interop.Proofs.Text.Utf8

namespace Interop

open Model Native Managed

/-- Tells whether a type is built without numbers with a fraction. -/
def Model.ManagedType.isExact : ManagedType → Bool
  | .primitive p => p != .float32 && p != .float64
  | .array element => element.isExact
  | _ => true

namespace Marshal

/-! ### Numbers -/

/-- The numbers of an integral type, with or without sign, have 64 bits. -/
lemma bounds_of_holds {p : Primitive} {v : Int} (hp : p.isIntegral = true)
    (h : p.holds v = true) :
    (p.isSigned = true → -9223372036854775808 ≤ v ∧ v ≤ 9223372036854775807) ∧
    (p.isSigned = false → 0 ≤ v ∧ v ≤ 18446744073709551615) := by
  cases p <;>
    simp [Primitive.isIntegral, Primitive.holds, Primitive.integerRange?, Primitive.isSigned,
      Primitive.bitWidth, twoPow] at hp h ⊢ <;>
    omega

/-- An enum value has the number that it was made from. -/
lemma numberOf_signed {p : Primitive} {v : Int} (path : TypePath) (hp : p.isIntegral = true)
    (h : p.holds v = true) : numberOf p (EnumValue.signed path v) = v := by
  obtain ⟨hsigned, hunsigned⟩ := bounds_of_holds hp h
  rw [numberOf]
  split
  · rename_i hs
    exact EnumValue.toInt_signed (hsigned hs).1 (hsigned hs).2
  · rename_i hs
    have hs' : p.isSigned = false := by simpa using hs
    exact EnumValue.toNat_signed (hunsigned hs').1 (hunsigned hs').2

/-- An enum value is the one made from its number. -/
lemma signed_numberOf (p : Primitive) (e : EnumValue) :
    EnumValue.signed e.type (numberOf p e) = e := by
  rw [numberOf]
  split
  · exact e.signed_toInt
  · exact e.signed_toNat

/-! ### Texts -/

/-- A text that was read from octets without NUL is written as these. -/
lemma ofText?_of_ofUtf8 {octets : List UInt8} {s : String} (h₀ : (0 : UInt8) ∉ octets)
    (h : Text.ofUtf8 octets = .ok s) : ConstText.ofText? s = some ⟨octets, h₀⟩ := by
  rw [ConstText.ofText?, Text.utf8_of_ofUtf8 h, ConstText.ofOctets?, dif_neg h₀]

/-- A text that was written is read from its octets. -/
lemma ofUtf8_of_ofText? {s : String} {c : ConstText} (h : ConstText.ofText? s = some c) :
    Text.ofUtf8 c.octets = .ok s := by
  rw [ConstText.ofText?, ConstText.ofOctets?] at h
  split at h
  · cases h
  · cases h
    exact Text.ofUtf8_utf8 s

/-! ### Single values -/

/-- A single native value and its form as a value of a type: the same number in the type's own
kind, the same text as constant text, the same handle, and null for null. -/
inductive CanonicalOne (m : BindingModel) : ManagedType → NativeValue → NativeValue → Prop
  | bool (b : Bool) : CanonicalOne m (.primitive .bool) (.scalar (.bool b)) (.scalar (.bool b))
  | integer {p q : Primitive} {v : Int} (hq : q.holds v = true) (hp : p.holds v = true) :
    CanonicalOne m (.primitive p) (.scalar (.integer q v hq)) (.scalar (.integer p v hp))
  | enum {path : TypePath} {e : BoundEnum} {q : Primitive} {v : Int} (he : m.enum? path = some e)
    (hq : q.holds v = true) (hp : e.underlying.holds v = true) :
    CanonicalOne m (.enum path) (.scalar (.integer q v hq)) (.scalar (.integer e.underlying v hp))
  | str (t : ConstText) : CanonicalOne m .string (.str t) (.str t)
  | text (b : TextBuffer) (t : ConstText) (h : t.octets = b.octets) :
    CanonicalOne m .string (.text b) (.str t)
  | noText : CanonicalOne m .string .null .null
  | handle (path : TypePath) (h : Handle) : CanonicalOne m (.object path) (.handle h) (.handle h)
  | noObject (path : TypePath) : CanonicalOne m (.object path) .null .null

/-- Two single managed values that are equal as values of a type: the same value, or the same
number in another type. -/
inductive SameOne : ManagedType → ManagedValue → ManagedValue → Prop
  | bool (b : Bool) : SameOne (.primitive .bool) (.scalar (.bool b)) (.scalar (.bool b))
  | integer {p q : Primitive} {v : Int} (hq : q.holds v = true) (hp : p.holds v = true) :
    SameOne (.primitive p) (.scalar (.integer q v hq)) (.scalar (.integer p v hp))
  | enum (e : EnumValue) : SameOne (.enum e.type) (.enum e) (.enum e)
  | number (path : TypePath) {q : Primitive} {v : Int} (hq : q.holds v = true) :
    SameOne (.enum path) (.scalar (.integer q v hq)) (.enum (.signed path v))
  | string (text : String) : SameOne .string (.string text) (.string text)
  | noText : SameOne .string .null .null
  | object (path : TypePath) (o : ObjectRef) : SameOne (.object path) (.object o) (.object o)
  | noObject (path : TypePath) : SameOne (.object path) .null .null

/-- A native value without a NUL inside: the texts of a caller's buffers. -/
def NulFree (v : NativeValue) : Prop := ∀ b, v = .text b → (0 : UInt8) ∉ b.octets

section

variable {m : BindingModel} {t t' : HandleTable} {type : ManagedType}

/-- A single value that was read is written back in canonical form, without a new handle. -/
lemma canonicalOne_of_reads
    (hm : ∀ path e, m.enum? path = some e → e.underlying.isIntegral = true)
    (hpasses : m.PassesOne type) (hexact : type.isExact = true) (ht : t.Reachable)
    {heap heap' : Heap} {v : NativeValue} {w : ManagedValue} (hnul : NulFree v)
    (h : Reads m t type heap v w heap') :
    heap' = heap ∧ ∃ n, CanonicalOne m type v n ∧ ∀ heap, Writes m heap type t w n t := by
  cases h with
  | void => cases hpasses
  | primitive _ hs =>
    cases hs with
    | bool b => exact ⟨rfl, _, .bool b, fun _ => .primitive t (.bool b)⟩
    | integer hq hp => exact ⟨rfl, _, .integer hq hp, fun _ => .primitive t (.integer hp hp)⟩
    | single | double | widen | narrow => cases hexact
  | noText => exact ⟨rfl, .null, .noText, fun _ => .noText t⟩
  | @str c s _ hs =>
    exact ⟨rfl, .str c, .str c, fun _ => .string t (ofText?_of_ofUtf8 c.nul_not_mem hs)⟩
  | @text b s _ hs =>
    have h₀ := hnul b rfl
    exact ⟨rfl, .str ⟨b.octets, h₀⟩, .text b _ rfl, fun _ => .string t (ofText?_of_ofUtf8 h₀ hs)⟩
  | @enum path e q n _ he hq hp =>
    have hn := numberOf_signed path (hm path e he) hp
    exact ⟨rfl, _, .enum he hq hp, fun _ => Writes.enum (w := .signed path n) t he hn hp⟩
  | noObject path => exact ⟨rfl, .null, .noObject path, fun _ => .noObject path t⟩
  | @object path k o _ hres hassignable =>
    refine ⟨rfl, .handle k, .handle path k, fun heap => ?_⟩
    have hwrites : Writes m heap (.object path) t (.object o) _ _ := .object t hassignable
    rwa [ht.root_of_resolve? hres] at hwrites
  | noArray | array => cases hpasses

/-- A single value that was written is read back as the same value, as long as no handle is taken
back. -/
lemma sameOne_of_writes (hpasses : m.PassesOne type) (hexact : type.isExact = true)
    (ht : t.Reachable) {heap : Heap} {w : ManagedValue} {n : NativeValue}
    (h : Writes m heap type t w n t') :
    (∀ b, n ≠ .text b) ∧
      ∃ w', SameOne type w w' ∧ ∀ t'' heap, t' ≤ t'' → Reads m t'' type heap n w' heap := by
  cases h with
  | void => cases hpasses
  | primitive _ hs =>
    cases hs with
    | bool b => exact ⟨by simp, _, .bool b, fun _ heap _ => .primitive heap (.bool b)⟩
    | integer hq hp =>
      exact ⟨by simp, _, .integer hq hp, fun _ heap _ => .primitive heap (.integer hp hp)⟩
    | single | double | widen | narrow => cases hexact
  | noText => exact ⟨by simp, .null, .noText, fun _ heap _ => .noText heap⟩
  | @string s c _ hs =>
    exact ⟨by simp, .string s, .string s, fun _ heap _ => .str heap (ofUtf8_of_ofText? hs)⟩
  | @enum e w n _ he hn hp =>
    refine ⟨by simp, .enum w, .enum w, fun t'' heap _ => ?_⟩
    subst hn
    have hreads : Reads m t'' (.enum w.type) heap _ _ heap := .enum heap he hp hp
    rwa [signed_numberOf] at hreads
  | @number path e q v _ he hq hp =>
    exact ⟨by simp, _, .number path hq, fun _ heap _ => .enum heap he hp hp⟩
  | noObject path => exact ⟨by simp, .null, .noObject path, fun _ heap _ => .noObject path heap⟩
  | @object path o _ hassignable =>
    refine ⟨by simp, .object o, .object path o, fun t'' heap hle => ?_⟩
    exact .object heap (HandleTable.resolve?_of_le hle (ht.resolve?_root o)) hassignable
  | noArray | array => cases hpasses

/-- The kind of single values of a type can be that of the elements of an array. -/
lemma new?_of_passesOne {kind : Kind} (hpasses : m.PassesOne type)
    (hkind : nativeKind m type = .ok kind) :
    NativeArray.new? kind = some (.ofStorage kind []) := by
  cases hpasses with
  | primitive p => cases hkind; rfl
  | string => cases hkind; rfl
  | enum he =>
    simp only [nativeKind, he] at hkind
    cases hkind
    rfl
  | object h => cases hkind; rfl

/-- A value in canonical form can be put into an array of its kind, and taken out again. -/
lemma elementOf_of_canonicalOne {v n : NativeValue} {kind : Kind}
    (h : CanonicalOne m type v n) (hkind : nativeKind m type = .ok kind) :
    ∃ e, elementOf kind n = .ok e ∧ .ofElement e = n := by
  cases h with
  | bool b =>
    cases hkind
    exact ⟨.scalar (.bool b), rfl, rfl⟩
  | @integer p q v hq hp =>
    cases hkind
    refine ⟨.scalar (.integer p v hp), ?_, rfl⟩
    simp only [elementOf, Scalar.type, if_true]
  | @enum path e q v he hq hp =>
    simp only [nativeKind, he] at hkind
    cases hkind
    refine ⟨.scalar (.integer e.underlying v hp), ?_, rfl⟩
    simp only [elementOf, Scalar.type, if_true]
  | str t =>
    cases hkind
    exact ⟨.text t, rfl, rfl⟩
  | text b t h =>
    cases hkind
    exact ⟨.text t, rfl, rfl⟩
  | noText =>
    cases hkind
    exact ⟨.null, rfl, rfl⟩
  | handle path h =>
    cases hkind
    exact ⟨.handle h, rfl, rfl⟩
  | noObject path =>
    cases hkind
    exact ⟨.null, rfl, rfl⟩

/-- What is put into an array comes out again, unless it is a text buffer. -/
lemma ofElement_of_elementOf {kind : Kind} {n : NativeValue} {e : Element}
    (h : elementOf kind n = .ok e) (hn : ∀ b, n ≠ .text b) : .ofElement e = n := by
  unfold elementOf at h
  dsimp only at h
  split at h
  · split at h
    · cases h; rfl
    · cases h
  · split at h
    · cases h; rfl
    · cases h
  · exact absurd rfl (hn _)
  · split at h
    · cases h; rfl
    · cases h
  · split at h
    · cases h; rfl
    · cases h
  · cases h
  · cases h

/-! ### Arrays -/

lemma exists_forall₂ {α β γ : Type} {R : α → β → Prop} {P : β → γ → Prop} {Q : α → γ → Prop}
    {xs : List α} {ys : List β} (h : List.Forall₂ R xs ys)
    (hstep : ∀ x y, R x y → ∃ z, P y z ∧ Q x z) :
    ∃ zs, List.Forall₂ P ys zs ∧ List.Forall₂ Q xs zs := by
  induction h with
  | nil => exact ⟨[], .nil, .nil⟩
  | @cons x y _ _ hxy _ ih =>
    obtain ⟨z, hz, hz'⟩ := hstep x y hxy
    obtain ⟨zs, hzs, hzs'⟩ := ih
    exact ⟨z :: zs, .cons hz hzs, .cons hz' hzs'⟩

lemma readAll_of_forall₂
    {read : Heap → NativeValue → Except ConversionFault (ManagedValue × Heap)} {heap : Heap}
    {ns : List NativeValue} {ws : List ManagedValue}
    (h : List.Forall₂ (fun n w => read heap n = .ok (w, heap)) ns ws) :
    readAll read heap ns = .ok (ws, heap) := by
  induction h with
  | nil => rfl
  | cons hn _ ih => simp only [readAll, hn, ih]

lemma of_readAll {read : Heap → NativeValue → Except ConversionFault (ManagedValue × Heap)}
    {heap : Heap} (ns : List NativeValue) :
    ∀ {ws : List ManagedValue} {heap' : Heap},
      (∀ n ∈ ns, ∀ w heap', read heap n = .ok (w, heap') → heap' = heap) →
      readAll read heap ns = .ok (ws, heap') →
      heap' = heap ∧ List.Forall₂ (fun n w => read heap n = .ok (w, heap)) ns ws := by
  induction ns with
  | nil =>
    intro ws heap' _ h
    cases h
    exact ⟨rfl, .nil⟩
  | cons n ns ih =>
    intro ws heap' hkeep h
    cases hn : read heap n with
    | error e => simp only [readAll, hn] at h; cases h
    | ok r =>
      obtain ⟨w, heap₁⟩ := r
      obtain rfl := hkeep n List.mem_cons_self w heap₁ hn
      cases hns : readAll read heap₁ ns with
      | error e => simp only [readAll, hn, hns] at h; cases h
      | ok r =>
        obtain ⟨ws', heap₂⟩ := r
        simp only [readAll, hn, hns] at h
        cases h
        obtain ⟨rfl, hrest⟩ := ih (fun n hn => hkeep n (List.mem_cons_of_mem _ hn)) hns
        exact ⟨rfl, .cons hn hrest⟩

lemma push_ofStorage (kind : Kind) (es : List Element) (e : Element) :
    (NativeArray.ofStorage kind es).push e = .ofStorage kind (es ++ [e]) := by
  simp only [NativeArray.push, NativeArray.ofStorage, List.length_append, List.length_singleton]

lemma writeAll_of_forall₂
    {write : HandleTable → ManagedValue → Except ConversionFault NativeValue × HandleTable}
    {kind : Kind} {vs : List ManagedValue} {es : List Element}
    (h : List.Forall₂ (fun v e => ∃ n, write t v = (.ok n, t) ∧ elementOf kind n = .ok e) vs es) :
    ∀ before, writeAll write (.ofStorage kind before) t vs =
      (.ok (.ofStorage kind (before ++ es)), t) := by
  induction h with
  | nil => intro before; rw [List.append_nil]; rfl
  | @cons v e vs es hv _ ih =>
    intro before
    obtain ⟨n, hwrite, helement⟩ := hv
    have hpush : push (.ofStorage kind before) n = .ok (.ofStorage kind (before ++ [e])) := by
      rw [push, show (NativeArray.ofStorage kind before).kind = kind from rfl, helement]
      exact congrArg Except.ok (push_ofStorage kind before e)
    simp only [writeAll, hwrite, hpush, ih, List.append_assoc, List.singleton_append]

lemma of_writeAll
    {write : HandleTable → ManagedValue → Except ConversionFault NativeValue × HandleTable}
    {P : ManagedValue → ObjectRef → Prop} (hroot : ∀ v, Rooting (P v) fun t => write t v)
    {kind : Kind} (vs : List ManagedValue) :
    ∀ {t t' : HandleTable} {before : List Element} {b : NativeArray}, t.Reachable →
      writeAll write (.ofStorage kind before) t vs = (.ok b, t') →
        t ≤ t' ∧ ∃ es, b = .ofStorage kind (before ++ es) ∧
          List.Forall₂ (fun v e => ∃ n t₁ t₂, t₁.Reachable ∧ write t₁ v = (.ok n, t₂) ∧ t₂ ≤ t' ∧
            elementOf kind n = .ok e) vs es := by
  induction vs with
  | nil =>
    intro t t' before b _ h
    cases h
    exact ⟨le_rfl, [], by rw [List.append_nil], .nil⟩
  | cons v vs ih =>
    intro t t' before b ht h
    rw [writeAll] at h
    cases hv : write t v with
    | mk r t₁ =>
      have hle : t ≤ t₁ := (hroot v).le_of_eq hv
      rw [hv] at h
      cases r with
      | error e => cases h
      | ok n =>
        dsimp only at h
        cases helement : elementOf kind n with
        | error e =>
          rw [push, show (NativeArray.ofStorage kind before).kind = kind from rfl, helement] at h
          cases h
        | ok e =>
          rw [push, show (NativeArray.ofStorage kind before).kind = kind from rfl, helement] at h
          simp only [Except.map, push_ofStorage] at h
          obtain ⟨hle', es, rfl, hrest⟩ := ih ((hroot v).reachable_of_eq hv ht) h
          refine ⟨le_trans hle hle', e :: es, by rw [List.append_assoc, List.singleton_append], ?_⟩
          exact .cons ⟨n, t, t₁, ht, hv, hle', helement⟩ hrest

/-- A native value and its form as a value of a type: an array is of the same kind, with as many
elements in the same order, each in its form as a value of the element type. -/
inductive Canonical (m : BindingModel) : ManagedType → NativeValue → NativeValue → Prop
  | one {type : ManagedType} {v n : NativeValue} (h : CanonicalOne m type v n) :
    Canonical m type v n
  | noArray (element : ManagedType) : Canonical m (.array element) .null .null
  | array {element : ManagedType} {a : NativeArray} {es : List Element}
    (h : List.Forall₂ (fun x y => CanonicalOne m element (.ofElement x) (.ofElement y))
      a.elements es) :
    Canonical m (.array element) (.array a) (.array (.ofStorage a.kind es))

/-- Two managed values, each with its heap, that are equal as values of a type: arrays are when
their elements are. -/
inductive Same (heap heap' : Heap) : ManagedType → ManagedValue → ManagedValue → Prop
  | one {type : ManagedType} {w w' : ManagedValue} (h : SameOne type w w') :
    Same heap heap' type w w'
  | noArray (element : ManagedType) : Same heap heap' (.array element) .null .null
  | array {element : ManagedType} {r r' : ArrayRef}
    (h : List.Forall₂ (SameOne element) (heap.items r) (heap'.items r')) :
    Same heap heap' (.array element) (.array r) (.array r')

lemma items_newArray (heap : Heap) (items : List ManagedValue) :
    (heap.newArray items).2.items (heap.newArray items).1 = items := by
  simp [Heap.newArray, Heap.items]

lemma nulFree_ofElement (e : Element) : NulFree (.ofElement e) := by
  intro b h
  cases e <;> cases h

/-- What was read is written back in canonical form, without a new handle. -/
lemma canonical_of_reads
    (hm : ∀ path e, m.enum? path = some e → e.underlying.isIntegral = true)
    (hpasses : m.Passes type) (hexact : type.isExact = true) (ht : t.Reachable)
    {heap heap' : Heap} {v : NativeValue} {w : ManagedValue} (hnul : NulFree v)
    (h : Reads m t type heap v w heap') :
    ∃ n, Writes m heap' type t w n t ∧ Canonical m type v n := by
  cases hpasses with
  | one hone =>
    obtain ⟨_, n, hn, hback⟩ := canonicalOne_of_reads hm hone hexact ht hnul h
    exact ⟨n, hback heap', .one hn⟩
  | @array element hone =>
    cases h with
    | noArray => exact ⟨.null, .noArray element t, .noArray element⟩
    | @array _ a _ heap₁ items hkind hread =>
      have helement : ∀ x w heap heap',
          toManaged m t element heap (.ofElement x) = .ok (w, heap') → heap' = heap ∧
            ∃ n, CanonicalOne m element (.ofElement x) n ∧ ∀ heap, Writes m heap element t w n t :=
        fun x w heap heap' hw => canonicalOne_of_reads hm hone hexact ht (nulFree_ofElement x)
          (toManaged_eq_ok_iff.mp hw)
      -- elements are no arrays, so that all are read in the heap that was there
      have hkeep : ∀ n ∈ a.elements.map NativeValue.ofElement, ∀ w heap',
          toManaged m t element heap n = .ok (w, heap') → heap' = heap := by
        intro n hn w heap' hw
        obtain ⟨x, _, rfl⟩ := List.mem_map.mp hn
        exact (helement x w heap heap' hw).1
      obtain ⟨rfl, hitems⟩ := of_readAll _ hkeep hread
      rw [List.forall₂_map_left_iff] at hitems
      obtain ⟨es, hwrite, hcanonical⟩ := exists_forall₂ (γ := Element)
        (P := fun w e => ∃ n, toNative m (heap₁.newArray items).2 element t w = (.ok n, t) ∧
          elementOf a.kind n = .ok e)
        (Q := fun x e => CanonicalOne m element (.ofElement x) (.ofElement e)) hitems (by
          intro x w hw
          obtain ⟨_, n, hn, hback⟩ := helement x w heap₁ heap₁ hw
          obtain ⟨e, helement, he⟩ := elementOf_of_canonicalOne hn hkind
          exact ⟨e, ⟨n, toNative_eq_ok_iff.mpr (hback _), helement⟩, he ▸ hn⟩)
      refine ⟨.array (.ofStorage a.kind es), ?_, .array hcanonical⟩
      refine .array hkind (new?_of_passesOne hone hkind) ?_
      rw [items_newArray]
      exact writeAll_of_forall₂ hwrite []

/-- What was written is read back as the same value. -/
lemma same_of_writes (hpasses : m.Passes type) (hexact : type.isExact = true)
    (ht : t.Reachable) {heap : Heap} {w : ManagedValue} {n : NativeValue}
    (h : Writes m heap type t w n t') :
    ∃ w' heap', Reads m t' type heap n w' heap' ∧ Same heap heap' type w w' := by
  cases hpasses with
  | one hone =>
    obtain ⟨_, w', hsame, hback⟩ := sameOne_of_writes hone hexact ht h
    exact ⟨w', heap, hback t' heap le_rfl, .one hsame⟩
  | @array element hone =>
    cases h with
    | noArray => exact ⟨.null, heap, .noArray element heap, .noArray element⟩
    | @array _ r kind a b _ _ hkind hnew hwrite =>
      rw [new?_of_passesOne hone hkind] at hnew
      cases hnew
      obtain ⟨_, es, rfl, hes⟩ := of_writeAll (rooting_toNative m heap element) _ ht hwrite
      -- the handles that an element got are still there when the last one was written
      obtain ⟨ws, hread, hsame⟩ := exists_forall₂ (γ := ManagedValue)
        (P := fun e w => toManaged m t' element heap (.ofElement e) = .ok (w, heap))
        (Q := SameOne element) hes (by
          rintro v e ⟨n, t₁, t₂, ht₁, hn, hle, helement⟩
          obtain ⟨hnot, w, hw, hback⟩ :=
            sameOne_of_writes hone hexact ht₁ (toNative_eq_ok_iff.mp hn)
          refine ⟨w, ?_, hw⟩
          rw [ofElement_of_elementOf helement hnot]
          exact toManaged_eq_ok_iff.mpr (hback t' heap hle))
      have hall : readAll (toManaged m t' element) heap (es.map .ofElement) = .ok (ws, heap) :=
        readAll_of_forall₂ (List.forall₂_map_left_iff.mpr hread)
      refine ⟨.array (heap.newArray ws).1, (heap.newArray ws).2, .array hkind hall, .array ?_⟩
      rw [items_newArray]
      exact hsame

end

/-- For the types that a bound model passes, fractions left out, and in any state of the handles:
a value that could be read as a type, with no NUL in its text, is written back in its form as a
value of the type, and a value that could be written is read back as the same value. -/
theorem roundTrip (a : Source.Assembly) (t : HandleTable) (type : ManagedType)
    (ht : t.Reachable) (hpasses : (BindingModel.ofAssembly a).Passes type)
    (hexact : type.isExact = true) :
    (∀ heap v w heap', NulFree v →
      toManaged (BindingModel.ofAssembly a) t type heap v = .ok (w, heap') →
        ∃ n, toNative (BindingModel.ofAssembly a) heap' type t w = (.ok n, t) ∧
          Canonical (BindingModel.ofAssembly a) type v n) ∧
    (∀ heap w n t', toNative (BindingModel.ofAssembly a) heap type t w = (.ok n, t') →
      ∃ w' heap', toManaged (BindingModel.ofAssembly a) t' type heap n = .ok (w', heap') ∧
        Same heap heap' type w w') := by
  have hm : ∀ path e, (BindingModel.ofAssembly a).enum? path = some e →
      e.underlying.isIntegral = true := by
    intro path e he
    exact isIntegral_underlying a (List.mem_of_find?_eq_some he)
  constructor
  · intro heap v w heap' hnul h
    obtain ⟨n, hn, hcanonical⟩ := canonical_of_reads hm hpasses hexact ht hnul
      (toManaged_eq_ok_iff.mp h)
    exact ⟨n, toNative_eq_ok_iff.mpr hn, hcanonical⟩
  · intro heap w n t' h
    obtain ⟨w', heap', hw, hsame⟩ := same_of_writes hpasses hexact ht (toNative_eq_ok_iff.mp h)
    exact ⟨w', heap', toManaged_eq_ok_iff.mpr hw, hsame⟩

/-- An array of two numbers is read, and written back as it was. -/
theorem roundTrip_numbers :
    HandleTable.empty.Reachable ∧
    (BindingModel.ofAssembly ⟨[]⟩).Passes (.array (.primitive .int16)) ∧
    ∃ w heap' n,
      toManaged (BindingModel.ofAssembly ⟨[]⟩) .empty (.array (.primitive .int16)) .empty
        (.array (.ofStorage (.scalar .int16)
          [.scalar (.integer .int16 7 rfl), .scalar (.integer .int16 (-1) rfl)])) =
          .ok (w, heap') ∧
      toNative (BindingModel.ofAssembly ⟨[]⟩) heap' (.array (.primitive .int16)) .empty w =
        (.ok n, .empty) ∧
      Canonical (BindingModel.ofAssembly ⟨[]⟩) (.array (.primitive .int16))
        (.array (.ofStorage (.scalar .int16)
          [.scalar (.integer .int16 7 rfl), .scalar (.integer .int16 (-1) rfl)])) n := by
  have hpasses : (BindingModel.ofAssembly ⟨[]⟩).Passes (.array (.primitive .int16)) :=
    .array (.primitive .int16)
  obtain ⟨n, hn, hcanonical⟩ := (roundTrip ⟨[]⟩ .empty _ .empty hpasses rfl).1 .empty
    (.array (.ofStorage (.scalar .int16)
      [.scalar (.integer .int16 7 rfl), .scalar (.integer .int16 (-1) rfl)]))
    _ _ (fun b h => by cases h) rfl
  exact ⟨.empty, hpasses, _, _, n, rfl, hn, hcanonical⟩

end Marshal

end Interop
