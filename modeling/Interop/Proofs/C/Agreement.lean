/-
# Stubs and the entry point agree

A stub is generated from the types of a function, and the entry point reads what the stub packed
by the kinds of the slots.  Each side has its own table of kinds and members of the payload.  Here
the two are compared: for a type that a model passes, a stub writes the member that is read for the
kind of the slot (`slotOf_spec`), and a result that it takes out of the payload can be packed and
read again.

What a stub does to the payload is what C does: an assignment to a member of the union leaves the
bits outside the member as they happen to be (`Field.store`), and an access to a member sees the
bits of the member only (`Field.load`).

A stub is a text, and what it does is in its lines: those that fill the slots (`Packs`), the one that
calls the entry point, and those that take the result out of the payload (`ReturnLines`).  The names
in them are those that the support header defines (`Names`).

Main result: `stub_agrees`.
-/
import Interop.Abi
import Interop.C.Library
import Interop.Proofs.Except
import Interop.Proofs.Marshal.Conforms
import Interop.Proofs.Scalar
import Interop.Source.Parser

namespace Interop

open Source Model Native Managed Marshal Abi

namespace Native.Field

/-- The content of a member of a payload: the low bits for a primitive type, and else a
pointer. -/
def load (f : Field) (p : Payload) : Payload :=
  match f.primitive? with
  | some q => .word (p.bits % twoPow q.bitWidth)
  | none => p

/-- A payload after an assignment to a member; `rest` are the bits that the member has not. -/
def store (f : Field) (content : Payload) (rest : Nat) : Payload :=
  match f.primitive? with
  | some q => .word (content.bits % twoPow q.bitWidth + twoPow q.bitWidth * rest)
  | none => content

lemma store_load_word {f : Field} {q : Primitive} (hf : f.primitive? = some q) {bits : Nat}
    (hbits : bits < twoPow q.bitWidth) (rest : Nat) :
    f.store (f.load (.word bits)) rest = .word (bits + twoPow q.bitWidth * rest) := by
  simp only [load, store, hf, Payload.bits, Nat.mod_eq_of_lt hbits]

lemma store_load_pointer {f : Field} (hf : f.primitive? = none) (p : Payload) (rest : Nat) :
    f.store (f.load p) rest = p := by
  simp only [load, store, hf]

end Native.Field

namespace C

/-! ### The two tables -/

lemma primitiveSlot_spec (p : Primitive) :
    (primitiveSlot p).kind = .scalar p ∧ (primitiveSlot p).field.primitive? = some p ∧
      payloadField? (.scalar p) = some (primitiveSlot p).field := by
  cases p <;> exact ⟨rfl, rfl, rfl⟩

/-- A value of a type that a model passes travels in a slot of the kind of the type, and in the
member that is read for this kind. -/
lemma slotOf_spec {m : BindingModel} {type : ManagedType} (h : m.Passes type) :
    ∃ slot, slotOf m type = .ok slot ∧ nativeKind m type = .ok slot.kind ∧
      payloadField? slot.kind = some slot.field := by
  cases h with
  | one h =>
    cases h with
    | primitive p =>
      obtain ⟨hkind, _, hfield⟩ := primitiveSlot_spec p
      exact ⟨primitiveSlot p, rfl, by rw [hkind]; rfl, by rw [hkind, hfield]⟩
    | string => exact ⟨⟨.string, .str⟩, rfl, rfl, rfl⟩
    | @enum path e he =>
      obtain ⟨hkind, _, hfield⟩ := primitiveSlot_spec e.underlying
      refine ⟨primitiveSlot e.underlying, ?_, ?_, by rw [hkind, hfield]⟩
      · simp only [slotOf, boundEnum, he]
        rfl
      · simp only [nativeKind, he, hkind]
    | object _ => exact ⟨⟨.handle, .handle⟩, rfl, rfl, rfl⟩
  | array _ => exact ⟨⟨.array, .array⟩, rfl, rfl, rfl⟩

/-- The C expression for the value of a variable, by the type that it stands for. -/
inductive ValueText (m : BindingModel) (name : String) : ManagedType → String → Prop
  | primitive (p : Primitive) : ValueText m name (.primitive p) name
  | string : ValueText m name .string name
  | enum {path : TypePath} {e : BoundEnum} (h : m.enum? path = some e) :
    ValueText m name (.enum path) s!"({primitiveType e.underlying}){name}"
  | object (path : TypePath) : ValueText m name (.object path) ("(void*)" ++ name)
  | array (element : ManagedType) : ValueText m name (.array element) (name ++ ".array")

/-- A stub packs a parameter into the slot of its type: the pointer that it is given if the parameter
is passed by reference, and else the value. -/
lemma packParameter_spec {m : BindingModel} {p : BoundParam} {slot : Slot}
    (hpasses : m.Passes p.type) (h : slotOf m p.type = .ok slot) :
    ∃ arg, packParameter m p = .ok arg ∧ arg.slot = slot ∧ arg.isByRef = p.direction.isByRef ∧
      if p.direction.isByRef then arg.expression = parameterName p.name
      else ValueText m (parameterName p.name) p.type arg.expression := by
  obtain ⟨name, type, direction⟩ := p
  dsimp only at hpasses h ⊢
  rw [packParameter]
  dsimp only
  rw [h]
  cases direction.isByRef with
  | true => exact ⟨_, rfl, rfl, rfl, rfl⟩
  | false =>
    cases hpasses with
    | one hone =>
      cases hone with
      | primitive p => exact ⟨_, rfl, rfl, rfl, .primitive p⟩
      | string => exact ⟨_, rfl, rfl, rfl, .string⟩
      | @enum path e he =>
        refine ⟨⟨slot, false, s!"({primitiveType e.underlying}){parameterName name}"⟩,
          ?_, rfl, rfl, .enum he⟩
        show (boundEnum m path >>= _) = _
        rw [boundEnum, he]
        rfl
      | @object path c _ _ => exact ⟨_, rfl, rfl, rfl, .object path⟩
    | @array element _ => exact ⟨_, rfl, rfl, rfl, .array element⟩

/-- A stub takes a result out of the member of its type. -/
lemma unpack_spec {m : BindingModel} {type : ManagedType} {slot : Slot}
    (hpasses : m.Passes type) (h : slotOf m type = .ok slot) :
    ∃ u, unpack m type = .ok u ∧ u.field? = some slot.field := by
  cases hpasses with
  | one hone =>
    cases hone with
    | primitive p => exact ⟨_, by rw [unpack, h]; rfl, rfl⟩
    | string => exact ⟨_, by rw [unpack, h]; rfl, rfl⟩
    | enum he => exact ⟨_, by rw [unpack, h]; rfl, rfl⟩
    | object hc => cases h; exact ⟨_, rfl, rfl⟩
  | array hone => cases h; exact ⟨_, rfl, rfl⟩

/-! ### Results -/

/-- A value and what it is read as after it was packed: the value itself, the same text as constant
text, or an array of its own of the same kind with the same elements. -/
inductive ReadAs : NativeValue → NativeValue → Prop
  | scalar (s : Scalar) : ReadAs (.scalar s) (.scalar s)
  | null : ReadAs .null .null
  | handle (h : Handle) : ReadAs (.handle h) (.handle h)
  | str (t : ConstText) : ReadAs (.str t) (.str t)
  | text (b : TextBuffer) (t : ConstText) (h : t.octets = b.octets) : ReadAs (.text b) (.str t)
  | array (a b : NativeArray) (hkind : b.kind = a.kind) (helements : b.elements = a.elements) :
    ReadAs (.array a) (.array b)

/-- A slot as a stub packs it for an argument that is not passed by reference. -/
def packed (slot : Slot) (content : Payload) (rest : Nat) : Abi.Slot :=
  ⟨slot.kind.code, .byValue (slot.field.store content rest)⟩

lemma decode_packed {slot : Slot} (h : payloadField? slot.kind = some slot.field)
    (content : Payload) (rest : Nat) :
    decode (packed slot content rest) .input =
      .ok ((slot.field.store content rest).read slot.field) := by
  simp only [decode, packed, Kind.ofCode?_code, Direction.isByRef, readPayload, h]
  rfl

/-- The type of a scalar that conforms to a type decides on the slot. -/
lemma slotOf_of_nativeKind {m : BindingModel} {type : ManagedType} {p : Primitive} {slot : Slot}
    (hkind : nativeKind m type = .ok (.scalar p)) (hslot : slotOf m type = .ok slot) :
    slot.field.primitive? = some p := by
  cases type with
  | primitive q =>
    cases hkind
    cases hslot
    exact (primitiveSlot_spec p).2.1
  | enum path =>
    cases he : m.enum? path with
    | none => simp only [nativeKind, he] at hkind; cases hkind
    | some e =>
      simp only [nativeKind, he] at hkind
      simp only [slotOf, boundEnum, he] at hslot
      cases hkind
      cases hslot
      exact (primitiveSlot_spec e.underlying).2.1
  | _ => cases hkind

/-- A result that was packed, taken out of the payload and packed again is read as it was. -/
lemma readAs_of_conforms {m : BindingModel} {type : ManagedType} {slot : Slot} {n : NativeValue}
    (hslot : slotOf m type = .ok slot) (h : Conforms m type n) (rest : Nat) :
    ∃ payload n', (encode n).passing = .byValue payload ∧ ReadAs n n' ∧
      (slot.field.store (slot.field.load payload) rest).read slot.field = n' := by
  cases h with
  | scalar s hkind =>
    -- the bits of the value fit into the member, and the others are not read
    have hfield := slotOf_of_nativeKind hkind hslot
    refine ⟨_, _, rfl, .scalar s, ?_⟩
    rw [Field.store_load_word hfield s.bits_lt]
    simp only [Payload.read, hfield, Payload.bits, Scalar.ofBits_bits]
  | str t =>
    cases hslot
    exact ⟨_, _, rfl, .str t, rfl⟩
  | text b hb =>
    cases hslot
    refine ⟨_, _, rfl, .text b ⟨b.octets, hb⟩ rfl, ?_⟩
    rw [ConstText.ofOctets?, dif_neg hb]
    rfl
  | noText =>
    cases hslot
    exact ⟨_, _, rfl, .null, rfl⟩
  | handle path k =>
    cases hslot
    refine ⟨_, _, rfl, .handle k, ?_⟩
    have hraw : Handle.ofRaw? k.raw = some k := by
      rw [Handle.ofRaw?, dif_neg k.raw_ne_zero]
    rw [Field.store_load_pointer rfl]
    simp only [Payload.read, Field.primitive?, Payload.bits, NativeValue.ofRawHandle, hraw]
  | noObject path =>
    cases hslot
    exact ⟨_, _, rfl, .null, rfl⟩
  | array a hkind =>
    cases hslot
    exact ⟨_, _, rfl, .array a a.copy rfl rfl, rfl⟩
  | noArray element =>
    cases hslot
    exact ⟨_, _, rfl, .null, rfl⟩

/-! ### The text of a stub -/

/-- No two kinds have one constant. -/
lemma constant_injective : Function.Injective Kind.constant := by
  have hfind : ∀ k : Kind, Kind.all.find? (·.constant = k.constant) = some k := by
    intro k
    cases k with
    | scalar p => cases p <;> rfl
    | void | string | handle | array => rfl
  intro k l h
  have hk := hfind k
  rw [h, hfind l] at hk
  exact (Option.some.inj hk).symm

/-- No two members of the payload have one name. -/
lemma name_injective : Function.Injective Field.name := by
  intro f g h
  cases f <;> cases g <;> first | rfl | exact absurd h (by decide)

/-- The type of a member of the payload, as it stands before the name of the member. -/
def memberType (f : Field) : String :=
  match f.primitive?, f with
  | some p, _ => primitiveType p ++ " "
  | none, .str => "const char* "
  | none, .array => "M2nArray* "
  | none, _ => "void* "

/-- What the names in stubs stand for, by the lines of a support header: the constant of a kind for
the code that the entry point reads as this kind, the name of a member of the payload for a member
of its type, and the two macros for what fills a slot. -/
structure Names (lines : List String) : Prop where
  kind : ∀ k : Kind, s!"#define {k.constant} {k.code}" ∈ lines ∧ Kind.ofCode? k.code = some k
  member : ∀ f : Field, s!"    {memberType f}{f.name};" ∈ lines
  byValue :
    ["#define M2N_ARG(slot, k, field, value) \\",
     "    ((slot).kind = (k), (slot).by_ref = false, (slot).payload.field = (value))"] <:+: lines
  byReference :
    ["#define M2N_ARG_REF(slot, k, pointer) \\",
     "    ((slot).kind = (k), (slot).by_ref = true, (slot).payload.ptr = (void*)(pointer))"] <:+:
      lines

lemma mem_all (k : Kind) : k ∈ Kind.all := by
  cases k with
  | scalar p => cases p <;> decide
  | void | string | handle | array => decide

/-- Lines say what the names stand for if they define the constants and hold the declarations of the
runtime's interface. -/
lemma Names.of_declarations {lines : List String}
    (hcodes : ∀ k : Kind, s!"#define {k.constant} {k.code}" ∈ lines)
    (hdeclarations : supportDeclarations <:+: lines) : Names lines where
  kind k := ⟨hcodes k, Kind.ofCode?_code k⟩
  member f := by
    refine hdeclarations.subset ?_
    cases f <;> decide
  byValue :=
    List.IsInfix.trans ⟨supportDeclarations.take 38, supportDeclarations.drop 40, rfl⟩ hdeclarations
  byReference :=
    List.IsInfix.trans ⟨supportDeclarations.take 40, supportDeclarations.drop 42, rfl⟩ hdeclarations

/-- The support header says what the names stand for. -/
lemma exists_names : ∃ lines, supportHeader = unlines lines ∧ Names lines := by
  refine ⟨_, rfl, .of_declarations (fun k => ?_) ?_⟩
  · have hline := List.mem_map_of_mem (f := fun k => s!"#define {k.constant} {k.code}") (mem_all k)
    simp only [List.mem_append, hline, true_or, or_true]
  · exact (List.infix_append _ supportDeclarations [""]).trans (List.prefix_append _ _).isInfix

/-- The line of a stub that fills the slot at a place with a parameter: with its value, in the member
that is read for the kind of its type, or with the pointer that the caller gave. -/
inductive PackingLine (m : BindingModel) (p : BoundParam) (i : Nat) : String → Prop
  | value {kind : Kind} {field : Field} {value : String} (hdirection : p.direction = .input)
    (hkind : nativeKind m p.type = .ok kind) (hfield : payloadField? kind = some field)
    (hvalue : ValueText m (parameterName p.name) p.type value) :
    PackingLine m p i s!"    M2N_ARG(__args[{i}], {kind.constant}, {field.name}, {value});"
  | reference {kind : Kind} (hdirection : p.direction = .out ∨ p.direction = .ref)
    (hkind : nativeKind m p.type = .ok kind) :
    PackingLine m p i s!"    M2N_ARG_REF(__args[{i}], {kind.constant}, {parameterName p.name});"

/-- The lines of a stub that take a result out of a member of the payload and return it. -/
inductive ReturnLines (field : Field) : ManagedType → List String → Prop
  | primitive (p : Primitive) :
    ReturnLines field (.primitive p) [s!"    return __result.payload.{field.name};"]
  | string : ReturnLines field .string [s!"    return __result.payload.{field.name};"]
  | enum (path : TypePath) :
    ReturnLines field (.enum path) [s!"    return ({path.symbol})__result.payload.{field.name};"]
  | object (path : TypePath) :
    ReturnLines field (.object path) [s!"    return ({path.symbol}*)__result.payload.{field.name};"]
  | array (element : ManagedType) :
    ReturnLines field (.array element)
      [s!"    {element.arraySymbol} __array;", s!"    __array.array = __result.payload.{field.name};",
       "    return __array;"]

/-- The place of the slot of the first parameter: the receiver comes before it. -/
def firstParameter (f : NativeFunction) : Nat := if f.takesHandle then 1 else 0

/-- The lines of a stub that fill its slots, one for each. -/
structure Packs (m : BindingModel) (f : NativeFunction) (lines : List String) : Prop where
  length : lines.length = f.arity
  receiver : f.takesHandle = true →
    lines.head? = some "    M2N_ARG(__args[0], M2N_KIND_HANDLE, handle, (void*)__object);"
  parameter : ∀ (i : Nat) (p : BoundParam), f.params[i]? = some p →
    ∃ line, lines[firstParameter f + i]? = some line ∧
      PackingLine m p (firstParameter f + i) line

/-- The lines of a stub before its slots are filled. -/
def openingOf (api : String) (f : NativeFunction) : List String :=
  [prototype api f, "\x7b"] ++
    (if f.arity = 0 then [] else [s!"    M2nValue __args[{f.arity}];"]) ++
    ["    M2nValue __result = \x7b0\x7d;"]

/-- The line of a stub that calls the entry point with the slots. -/
def callLine (f : NativeFunction) : String :=
  let slots := if f.arity = 0 then "NULL" else "__args"
  s!"    __m2n_call(\"{f.symbol}\", {slots}, {f.arity}, &__result);"

/-- The lines of a stub that fill its slots. -/
def packing (s : Stub) : List String := s.arguments.mapIdx fun i a => a.line i

/-- The lines of a stub, with those that fill the slots and those that return the result. -/
lemma lines_eq (api : String) (s : Stub) :
    s.lines api = openingOf api s.function ++ packing s ++ callLine s.function :: s.result.lines ++
      ["\x7d"] := by
  unfold Stub.lines openingOf callLine packing
  rcases Nat.eq_zero_or_pos s.function.arity with hnone | hsome
  · have hno : ¬s.function.arity > 0 := by omega
    simp only [if_pos hnone, if_neg hno, List.cons_append, List.nil_append, List.append_assoc]
  · have hno : ¬s.function.arity = 0 := by omega
    simp only [if_pos hsome, if_neg hno, List.cons_append, List.nil_append, List.append_assoc]

/-! ### Whole stubs -/

/-- A packed argument is what the entry point expects for a parameter. -/
structure ArgumentAgrees (m : BindingModel) (p : BoundParam) (arg : PackedArgument) : Prop where
  kind : nativeKind m p.type = .ok arg.slot.kind
  byRef : arg.isByRef = true ↔ p.direction = .out ∨ p.direction = .ref
  field : payloadField? arg.slot.kind = some arg.slot.field
  line : ∀ i, PackingLine m p i (arg.line i)

/-- The member that a stub takes its result from, and any packing of an argument of the same type,
give back to the entry point what it returned. -/
structure ResultAgrees (m : BindingModel) (type : ManagedType) (u : Unpacked) : Prop where
  /-- All that the runtime returns as a value of the type conforms to it. -/
  conforms : ∀ heap t t' w n, toNative m heap type t w = (.ok n, t') → Conforms m type n
  returned : ∀ n, Conforms m type n → ∀ name rest, ∃ field arg payload n',
    u.field? = some field ∧ packParameter m ⟨name, type, .input⟩ = .ok arg ∧
    (encode n).passing = .byValue payload ∧ ReadAs n n' ∧
    decode (packed arg.slot (field.load payload) rest) .input = .ok n'
  lines : ∃ field, u.field? = some field ∧ ReturnLines field type u.lines

/-- A stub and the entry point agree on the slots of a function: there is one for the receiver, if
there is a receiver, and one for each parameter. -/
structure StubAgrees (m : BindingModel) (f : NativeFunction) (s : Stub) : Prop where
  function : s.function = f
  length : s.arguments.length = f.arity
  /-- What is packed by value, the receiver included, is written where it is read. -/
  field : ∀ arg ∈ s.arguments, arg.isByRef = false →
    payloadField? arg.slot.kind = some arg.slot.field
  arguments : ∃ args, s.arguments = (if f.takesHandle then [packReceiver] else []) ++ args ∧
    args.length = f.params.length ∧
    ∀ (i : Nat) (p : BoundParam), f.params[i]? = some p →
      ∃ arg, args[i]? = some arg ∧ ArgumentAgrees m p arg
  result : f.returns ≠ .void → ResultAgrees m f.returns s.result
  noResult : f.returns = .void → s.result.lines = []
  /-- The text of the stub packs these arguments, each into its own slot. -/
  text : Packs m f (packing s) ∧ ∀ api, s.lines api =
    openingOf api f ++ packing s ++ callLine f :: s.result.lines ++ ["\x7d"]
  /-- The text stands in the source of the model. -/
  emitted : ∀ o, ∃ before after,
    source o m = .ok (unlines (before ++ s.lines o.apiMacro ++ after))

lemma returnLines_of_unpack {m : BindingModel} {type : ManagedType} {u : Unpacked} {field : Field}
    (h : unpack m type = .ok u) (hfield : u.field? = some field) :
    ReturnLines field type u.lines := by
  cases type with
  | void =>
    cases h
    cases hfield
  | primitive p =>
    rw [unpack, map_eq_ok_iff] at h
    obtain ⟨slot, _, rfl⟩ := h
    cases hfield
    exact .primitive p
  | string =>
    rw [unpack, map_eq_ok_iff] at h
    obtain ⟨slot, _, rfl⟩ := h
    cases hfield
    exact .string
  | enum path =>
    rw [unpack, map_eq_ok_iff] at h
    obtain ⟨slot, _, rfl⟩ := h
    cases hfield
    exact .enum path
  | object path =>
    cases h
    cases hfield
    have hline : (Unpacked.field .handle (some (valueType (.object path)))).lines =
        [s!"    return ({path.symbol}*)__result.payload.{Field.handle.name};"] := by
      have hstar : "*)__result.payload." = "*" ++ ")__result.payload." := by decide
      simp only [Unpacked.lines, valueType, toString, hstar, String.append_assoc]
    rw [hline]
    exact .object path
  | array element =>
    cases h
    cases hfield
    exact .array element

lemma resultAgrees_of_passes {m : BindingModel} {type : ManagedType} (h : m.Passes type) :
    ∃ u, unpack m type = .ok u ∧ ResultAgrees m type u := by
  obtain ⟨slot, hslot, _, hfield⟩ := slotOf_spec h
  obtain ⟨u, hu, hufield⟩ := unpack_spec h hslot
  refine ⟨u, hu, fun heap t t' w n hn => conforms_of_writes h (toNative_eq_ok_iff.mp hn), ?_,
    _, hufield, returnLines_of_unpack hu hufield⟩
  intro n hn name rest
  obtain ⟨arg, harg, hargslot, _⟩ := packParameter_spec (p := ⟨name, type, .input⟩) h hslot
  obtain ⟨payload, n', hpayload, hread, hback⟩ := readAs_of_conforms hslot hn rest
  refine ⟨slot.field, arg, payload, n', hufield, harg, hpayload, hread, ?_⟩
  rw [hargslot, decode_packed hfield, hback]

lemma argumentAgrees_of_passes {m : BindingModel} {p : BoundParam} (h : m.Passes p.type) :
    ∃ arg, packParameter m p = .ok arg ∧ ArgumentAgrees m p arg := by
  obtain ⟨slot, hslot, hkind, hfield⟩ := slotOf_spec h
  obtain ⟨arg, harg, rfl, hbyRef, hexpression⟩ := packParameter_spec h hslot
  have hdirection : arg.isByRef = true ↔ p.direction = .out ∨ p.direction = .ref := by
    rw [hbyRef]
    cases p.direction <;> simp [Direction.isByRef]
  refine ⟨arg, harg, hkind, hdirection, hfield, fun i => ?_⟩
  rw [PackedArgument.line]
  rw [← hbyRef] at hexpression
  split
  · rename_i hreference
    rw [if_pos hreference] at hexpression
    rw [hexpression]
    exact .reference (hdirection.mp hreference) hkind
  · rename_i hvalue
    rw [if_neg hvalue] at hexpression
    have hinput : p.direction = .input := by
      cases hd : p.direction with
      | input => rfl
      | out => exact absurd (hdirection.mpr (.inl hd)) hvalue
      | ref => exact absurd (hdirection.mpr (.inr hd)) hvalue
    exact .value hinput hkind hfield hexpression

/-! ### The stubs of a model -/

lemma function_of_stub {m : BindingModel} {f : NativeFunction} {s : Stub}
    (h : Stub.of m f = .ok s) : s.function = f := by
  rw [Stub.of] at h
  cases hparams : f.params.mapM (packParameter m) with
  | error e => rw [hparams] at h; cases h
  | ok params =>
    cases hresult : unpack m f.returns with
    | error e => rw [hparams, hresult] at h; cases h
    | ok result =>
      rw [hparams, hresult] at h
      cases h
      rfl

/-- What a stub packs for a parameter is what the entry point expects. -/
lemma argumentAgrees_of_packParameter {m : BindingModel} {p : BoundParam} {arg : PackedArgument}
    (h : m.Passes p.type) (harg : packParameter m p = .ok arg) : ArgumentAgrees m p arg := by
  obtain ⟨arg', harg', hagrees⟩ := argumentAgrees_of_passes h
  rw [harg] at harg'
  obtain rfl := Except.ok.inj harg'
  exact hagrees

/-- What a stub does with the result of a function: nothing, if there is none. -/
lemma exists_unpack {m : BindingModel} {type : ManagedType} (h : type = .void ∨ m.Passes type) :
    ∃ u, unpack m type = .ok u ∧ (type ≠ .void → ResultAgrees m type u) ∧
      (type = .void → u.lines = []) := by
  rcases h with rfl | hpasses
  · exact ⟨.nothing, rfl, fun h => absurd rfl h, fun _ => rfl⟩
  · obtain ⟨u, hu, hagrees⟩ := resultAgrees_of_passes hpasses
    refine ⟨u, hu, fun _ => hagrees, ?_⟩
    rintro rfl
    cases hu
    rfl

/-- The stub of a function whose types are passed: the receiver is packed before the parameters. -/
lemma stub_spec {m : BindingModel} {f : NativeFunction}
    (hparams : ∀ p ∈ f.params, m.Passes p.type)
    (hreturns : f.returns = .void ∨ m.Passes f.returns) :
    ∃ args u, Stub.of m f = .ok ⟨f, (if f.takesHandle then [packReceiver] else []) ++ args, u⟩ ∧
      args.length = f.params.length ∧
      (∀ (i : Nat) (p : BoundParam), f.params[i]? = some p →
        ∃ arg, args[i]? = some arg ∧ ArgumentAgrees m p arg) ∧
      (f.returns ≠ .void → ResultAgrees m f.returns u) ∧ (f.returns = .void → u.lines = []) := by
  obtain ⟨args, hargs, hlength, hget⟩ := mapM_ok (f := packParameter m) f.params fun p hp =>
    (argumentAgrees_of_passes (hparams p hp)).imp fun _ h => h.1
  obtain ⟨u, hu, hagrees, hnothing⟩ := exists_unpack hreturns
  refine ⟨args, u, ?_, hlength, fun i p hp => ?_, hagrees, hnothing⟩
  · rw [Stub.of, hargs, hu]
    rfl
  · obtain ⟨arg, harg, hpack⟩ := hget i p hp
    have hpasses := hparams p (List.mem_of_getElem? hp)
    exact ⟨arg, harg, argumentAgrees_of_packParameter hpasses hpack⟩

/-- A function has a stub if its types are passed. -/
lemma exists_stub {m : BindingModel} {f : NativeFunction}
    (hparams : ∀ p ∈ f.params, m.Passes p.type)
    (hreturns : f.returns = .void ∨ m.Passes f.returns) : ∃ s, Stub.of m f = .ok s := by
  obtain ⟨args, u, hstub, -⟩ := stub_spec hparams hreturns
  exact ⟨_, hstub⟩

/-- The stubs of a model are those of its functions, in their order. -/
lemma stubs_ok {m : BindingModel} (h : ∀ f ∈ m.functions, ∃ s, Stub.of m f = .ok s) :
    ∃ ss, stubs m = .ok ss ∧ ss.map (·.function) = m.functions ∧
      ∀ f ∈ m.functions, ∀ {s}, Stub.of m f = .ok s → s ∈ ss := by
  obtain ⟨ss, hss, hlen, hget⟩ := mapM_ok m.functions h
  refine ⟨ss, hss, List.ext_getElem? fun i => ?_, ?_⟩
  · cases hf : m.functions[i]? with
    | none =>
      rw [List.getElem?_eq_none_iff] at hf ⊢
      rwa [List.length_map, hlen]
    | some f =>
      obtain ⟨s, hs, hof⟩ := hget i f hf
      rw [List.getElem?_map, hs, Option.map_some, function_of_stub hof]
  · intro f hf s hs
    obtain ⟨i, hi⟩ := List.getElem?_of_mem hf
    obtain ⟨s', hs', hof⟩ := hget i f hi
    rw [hs] at hof
    rw [Except.ok.inj hof]
    exact List.mem_of_getElem? hs'

/-- The lines of a source before its stubs. -/
def sourceOpening (o : Options) : List String :=
  preamble ++
    [s!"#include \"{o.headerName}\"", "", "#include <stdio.h>", "#include <stdlib.h>", ""] ++
    failureHandling

/-- The lines of some stubs, each behind an empty line. -/
def stubLines (api : String) (ss : List Stub) : List String :=
  ss.flatMap fun s => "" :: s.lines api

lemma source_eq {m : BindingModel} {ss : List Stub} (h : stubs m = .ok ss) (o : Options) :
    source o m = .ok (unlines (sourceOpening o ++ stubLines o.apiMacro ss)) := by
  rw [source, h]
  rfl

/-- The lines of a stub stand in the source of the model. -/
lemma exists_source_of_mem {m : BindingModel} {ss : List Stub} (h : stubs m = .ok ss) {s : Stub}
    (hs : s ∈ ss) (o : Options) : ∃ before after,
      source o m = .ok (unlines (before ++ s.lines o.apiMacro ++ after)) := by
  obtain ⟨first, last, rfl⟩ := List.append_of_mem hs
  refine ⟨sourceOpening o ++ stubLines o.apiMacro first ++ [""], stubLines o.apiMacro last, ?_⟩
  rw [source_eq h, stubLines, List.flatMap_append, List.flatMap_cons]
  simp only [stubLines, List.append_assoc, List.cons_append, List.nil_append]

section

variable {m : BindingModel} {f : NativeFunction} {args : List PackedArgument}

/-- What a stub packs for the parameters stands behind what it packs for the receiver. -/
lemma getElem?_arguments (i : Nat) :
    ((if f.takesHandle then [packReceiver] else []) ++ args)[firstParameter f + i]? = args[i]? := by
  rw [firstParameter]
  split
  · rw [Nat.add_comm]
    rfl
  · rw [Nat.zero_add]
    rfl

/-- What agrees with the parameters, and the receiver before it, is written where it is read. -/
lemma field_of_mem (hlength : args.length = f.params.length)
    (hargument : ∀ (i : Nat) (p : BoundParam), f.params[i]? = some p →
      ∃ arg, args[i]? = some arg ∧ ArgumentAgrees m p arg) {arg : PackedArgument}
    (harg : arg ∈ (if f.takesHandle then [packReceiver] else []) ++ args) :
    payloadField? arg.slot.kind = some arg.slot.field := by
  rcases List.mem_append.mp harg with harg | harg
  · split at harg
    · rw [List.mem_singleton.mp harg]
      rfl
    · cases harg
  · obtain ⟨i, hi, rfl⟩ := List.getElem_of_mem harg
    obtain ⟨arg, harg, hagrees⟩ :=
      hargument i _ (List.getElem?_eq_getElem (hlength ▸ hi : i < f.params.length))
    rw [List.getElem?_eq_getElem hi] at harg
    rw [Option.some.inj harg]
    exact hagrees.field

/-- The lines of a stub fill its slots with the arguments that agree with the parameters. -/
lemma packs_packing (hlength : args.length = f.params.length)
    (hargument : ∀ (i : Nat) (p : BoundParam), f.params[i]? = some p →
      ∃ arg, args[i]? = some arg ∧ ArgumentAgrees m p arg) (u : Unpacked) :
    Packs m f (packing ⟨f, (if f.takesHandle then [packReceiver] else []) ++ args, u⟩) where
  length := by
    rw [packing, List.length_mapIdx]
    exact f.length_receiver_append packReceiver hlength
  receiver h := by
    have hline : packReceiver.line 0 =
        "    M2N_ARG(__args[0], M2N_KIND_HANDLE, handle, (void*)__object);" := by decide
    rw [packing, if_pos h, List.singleton_append, List.mapIdx_cons, List.head?_cons, hline]
  parameter i p hp := by
    obtain ⟨arg, harg, hagrees⟩ := hargument i p hp
    refine ⟨arg.line (firstParameter f + i), ?_, hagrees.line _⟩
    rw [packing, List.getElem?_mapIdx, getElem?_arguments, harg]
    rfl

end

/-- The stubs of a bound model agree with the entry point: there is one for each function, with as
many slots as the function takes; the slot of a parameter has the kind of its type, points to the
caller's storage exactly for out and ref parameters, and is else filled in the member that is read
for its kind; and a result that the stub takes out of the payload is, when it is passed in again as
an argument of the same type, read as the value that was returned.  All of this stands in the lines
of the stub, and these stand in the source of the model.  Each kind and each member has a name of its
own there, and the support header says what it stands for. -/
theorem stub_agrees (a : Source.Assembly) (f : NativeFunction)
    (hf : f ∈ (BindingModel.ofAssembly a).functions) :
    (∃ s, Stub.of (BindingModel.ofAssembly a) f = .ok s ∧
      StubAgrees (BindingModel.ofAssembly a) f s) ∧
    Function.Injective Kind.constant ∧ Function.Injective Field.name ∧
    ∃ lines, supportHeader = unlines lines ∧ Names lines := by
  refine ⟨?_, constant_injective, name_injective, exists_names⟩
  have hparams : ∀ f ∈ (BindingModel.ofAssembly a).functions, ∀ p ∈ f.params,
      (BindingModel.ofAssembly a).Passes p.type := fun f hf p hp =>
    ((passes_of_mem_functions hf).1 p hp).1
  obtain ⟨args, u, hstub, hlength, hargument, hagrees, hnothing⟩ :=
    stub_spec (hparams f hf) (passes_of_mem_functions hf).2
  refine ⟨_, hstub, {
    function := rfl
    length := f.length_receiver_append packReceiver hlength
    field := fun arg harg _ => field_of_mem hlength hargument harg
    arguments := ⟨args, rfl, hlength, hargument⟩
    result := hagrees
    noResult := hnothing
    text := ⟨packs_packing hlength hargument u, fun api => lines_eq api _⟩
    emitted := fun o => ?_ }⟩
  obtain ⟨ss, hss, _, hmem⟩ := stubs_ok fun f hf =>
    exists_stub (hparams f hf) (passes_of_mem_functions hf).2
  exact exists_source_of_mem hss (hmem f hf hstub) o

/-- A method with a receiver, a text, a reference and an array as its result. -/
theorem stub_agrees_method :
    ∃ a f, Assembly.ofText ("public class A \x7b " ++
        "public int[] f(string text, ref long number); \x7d") = .ok a ∧
      f ∈ (BindingModel.ofAssembly a).functions ∧ f.symbol = "A_f" ∧ f.arity = 3 ∧
      f.returns = .array (.primitive .int32) ∧
      ∃ s, Stub.of (BindingModel.ofAssembly a) f = .ok s ∧
        StubAgrees (BindingModel.ofAssembly a) f s := by
  have hrun : (Assembly.ofText ("public class A \x7b " ++
      "public int[] f(string text, ref long number); \x7d")).toOption.any (fun a =>
        (BindingModel.ofAssembly a).functions.any fun f =>
          decide (f.symbol = "A_f") && decide (f.arity = 3) &&
          decide (f.returns = .array (.primitive .int32))) = true := by
    decide +kernel
  obtain ⟨a, ha, hfunctions⟩ := Assembly.exists_of_any hrun
  obtain ⟨f, hf, hshape⟩ := List.any_eq_true.mp hfunctions
  rw [Bool.and_eq_true, Bool.and_eq_true, decide_eq_true_eq, decide_eq_true_eq,
    decide_eq_true_eq] at hshape
  obtain ⟨⟨hsymbol, harity⟩, hreturns⟩ := hshape
  exact ⟨a, f, ha, hf, hsymbol, harity, hreturns, (stub_agrees a f hf).1⟩

end C

end Interop
