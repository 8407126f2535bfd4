/-
# Conversion between native and managed values

Every conversion follows the declared type and is checked: numbers must fit exactly, texts must
be UTF-8 without NUL, arrays must have the kind that their element type asks for, and handles
must belong to an object of a fitting class.

Main definitions:
* `toManaged` reads an argument;
* `toNative` writes a result, and gives handles to the objects in it.
-/
import Interop.Managed.HandleTable
import Interop.Model.Basic
import Interop.Native.Value

namespace Interop.Marshal

open Model Native Managed

/-- What is wrong with a text. -/
inductive TextFault
  | notUtf8 (fault : Text.Utf8Fault)
  | interiorNul
deriving DecidableEq

/-- The wording of a fault. -/
def TextFault.message : TextFault → String
  | notUtf8 fault => fault.message
  | interiorNul => "interior NUL byte"

/-- Why a value has no form on the other side. -/
inductive ConversionFault
  | typeMismatch (expected found : String)
  | outOfRange (value : String) (target : Primitive)
  | invalidString (fault : TextFault)
  | invalidHandle (h : Handle)
  | incompatibleHandle (expected found : TypePath)
  | elementMismatch (expected found : Kind)
  | nullNotAllowed (type : String)
  | unknownEnum (path : TypePath)
deriving DecidableEq

/-- The wording of a fault. -/
def ConversionFault.message : ConversionFault → String
  | typeMismatch expected found => s!"expected {expected}, found {found}"
  | outOfRange value target => s!"{value} is out of range for '{target.keyword}'"
  | invalidString fault => s!"invalid string: {fault.message}"
  | invalidHandle h => s!"handle {h.raw} does not refer to a live object"
  | incompatibleHandle expected found =>
    s!"handle to '{found.dotted}' cannot be used as '{expected.dotted}'"
  | elementMismatch expected found =>
    s!"array of {found.text} cannot be used as an array of {expected.text}"
  | nullNotAllowed type => s!"null is not a valid '{type}'"
  | unknownEnum path => s!"enum '{path.dotted}' is not bound"

/-! ### Elements of native arrays -/

/-- A value as an element of an array of a kind. -/
def elementOf (kind : Kind) (v : NativeValue) : Except ConversionFault Element :=
  let mismatch : Except ConversionFault Element := .error (.elementMismatch kind v.kind)
  match v with
  | .scalar s => if kind = .scalar s.type then .ok (.scalar s) else mismatch
  | .str t => if kind = .string then .ok (.text t) else mismatch
  | .text b =>
    if kind = .string then
      match ConstText.ofOctets? b.octets with
      | some t => .ok (.text t)
      | none => .error (.invalidString .interiorNul)
    else mismatch
  | .handle h => if kind = .handle then .ok (.handle h) else mismatch
  | .null => if kind = .string ∨ kind = .handle then .ok .null else mismatch
  | .void | .array _ => mismatch

/-- Adds a value to an array. -/
def push (a : NativeArray) (v : NativeValue) : Except ConversionFault NativeArray :=
  (elementOf a.kind v).map a.push

/-- The array of a kind with the given elements. -/
def arrayOf (kind : Kind) (values : List NativeValue) : Except ConversionFault NativeArray :=
  match NativeArray.new? kind with
  | none => .error (.typeMismatch "an array element kind" kind.text)
  | some a => values.foldlM push a

/-! ### The kinds of types -/

/-- The kind of the native values of a type.  An enum travels as its underlying type. -/
def nativeKind (m : BindingModel) : ManagedType → Except ConversionFault Kind
  | .void => .ok .void
  | .primitive p => .ok (.scalar p)
  | .string => .ok .string
  | .enum path =>
    match m.enum? path with
    | some e => .ok (.scalar e.underlying)
    | none => .error (.unknownEnum path)
  | .object _ => .ok .handle
  | .array _ => .ok .array

/-- The value of a type that a parameter has before anything is passed in. -/
def defaultValue (m : BindingModel) : ManagedType → ManagedValue
  | .primitive p => .scalar (.zero p)
  | .enum path => if (m.enum? path).isSome then .enum ⟨path, 0⟩ else .null
  | _ => .null

theorem defaultValue_ne_object (m : BindingModel) (type : ManagedType) (o : ObjectRef) :
    defaultValue m type ≠ .object o := by
  cases type with
  | enum path =>
    rw [defaultValue]
    split <;> nofun
  | _ => nofun

/-! ### Numbers -/

/-- A value as one of type `target`.  Integers and units of `char` must lie in its range;
numbers with a fraction may be widened, and narrowed if nothing is lost.  A value of no fitting
type is `found`. -/
def convertScalar (target : Primitive) (s : Scalar) (found : String) :
    Except ConversionFault Scalar :=
  match target, s with
  | .bool, .bool b => .ok (.bool b)
  | .float32, .single x => .ok (.single x)
  | .float32, .double x =>
    match x.narrow? with
    | some y => .ok (.single y)
    | none => .error (.outOfRange s.text target)
  | .float64, .double x => .ok (.double x)
  | .float64, .single x => .ok (.double x.widen)
  | .bool, _ | .float32, _ | .float64, _ => .error (.typeMismatch target.keyword found)
  | _, _ =>
    match s.integer? with
    | none => .error (.typeMismatch target.keyword found)
    | some v =>
      match Scalar.ofInt? target v with
      | some t => .ok t
      | none => .error (.outOfRange (toString v) target)

/-- A number as a value of an integral type. -/
def integerOf (target : Primitive) (v : Int) : Except ConversionFault Scalar :=
  match Scalar.ofInt? target v with
  | some s => .ok s
  | none => .error (.outOfRange (toString v) target)

/-! ### Handles -/

/-- The object of a handle, which must be of class `expected` or derive from it. -/
def resolve (m : BindingModel) (handles : HandleTable) (h : Handle) (expected : TypePath) :
    Except ConversionFault ObjectRef :=
  match handles.resolve? h with
  | none => .error (.invalidHandle h)
  | some o =>
    if m.isAssignable o.type expected then .ok o
    else .error (.incompatibleHandle expected o.type)

/-! ### From native to managed -/

/-- The text of some octets. -/
def textOf (octets : List UInt8) : Except ConversionFault ManagedValue :=
  match Text.ofUtf8 octets with
  | .ok s => .ok (.string s)
  | .error fault => .error (.invalidString (.notUtf8 fault))

/-- Converts the members of a list one after the other. -/
def readAll (read : Heap → NativeValue → Except ConversionFault (ManagedValue × Heap)) :
    Heap → List NativeValue → Except ConversionFault (List ManagedValue × Heap)
  | heap, [] => .ok ([], heap)
  | heap, v :: vs =>
    match read heap v with
    | .error e => .error e
    | .ok (w, heap) =>
      match readAll read heap vs with
      | .error e => .error e
      | .ok (ws, heap) => .ok (w :: ws, heap)

/-- The managed value of a native value of a type, and the heap with the arrays made for it. -/
def toManaged (m : BindingModel) (handles : HandleTable) :
    ManagedType → Heap → NativeValue → Except ConversionFault (ManagedValue × Heap)
  | .void, heap, _ => .ok (.null, heap)
  | .primitive p, heap, v =>
    match v with
    | .null => .error (.nullNotAllowed p.keyword)
    | .scalar s => (convertScalar p s v.describe).map fun t => (.scalar t, heap)
    | _ => .error (.typeMismatch p.keyword v.describe)
  | .string, heap, v =>
    match v with
    | .null => .ok (.null, heap)
    | .str t => (textOf t.octets).map (·, heap)
    | .text b => (textOf b.octets).map (·, heap)
    | _ => .error (.typeMismatch ManagedType.string.text v.describe)
  | .enum path, heap, v =>
    match m.enum? path with
    | none => .error (.unknownEnum path)
    | some e =>
      match v with
      | .null => .error (.nullNotAllowed path.dotted)
      | .scalar (.integer _ n _) =>
        (integerOf e.underlying n).map fun _ => (.enum (.signed path n), heap)
      | _ => .error (.typeMismatch e.underlying.keyword v.describe)
  | .object path, heap, v =>
    match v with
    | .null => .ok (.null, heap)
    | .handle h => (resolve m handles h path).map fun o => (.object o, heap)
    | _ => .error (.typeMismatch path.dotted v.describe)
  | .array element, heap, v =>
    match v with
    | .null => .ok (.null, heap)
    | .array a =>
      match nativeKind m element with
      | .error e => .error e
      | .ok kind =>
        if a.kind = kind then
          match readAll (toManaged m handles element) heap (a.elements.map .ofElement) with
          | .error e => .error e
          | .ok (items, heap) =>
            let (ref, heap) := heap.newArray items
            .ok (.array ref, heap)
        else .error (.elementMismatch kind a.kind)
    | _ => .error (.typeMismatch (ManagedType.array element).text v.describe)

/-! ### From managed to native -/

/-- Converts values one after the other and adds them to an array.  Handles given out before a
fault stay given out. -/
def writeAll (write : HandleTable → ManagedValue → Except ConversionFault NativeValue × HandleTable)
    (a : NativeArray) :
    HandleTable → List ManagedValue → Except ConversionFault NativeArray × HandleTable
  | handles, [] => (.ok a, handles)
  | handles, v :: vs =>
    match write handles v with
    | (.error e, handles) => (.error e, handles)
    | (.ok n, handles) =>
      match push a n with
      | .error e => (.error e, handles)
      | .ok a => writeAll write a handles vs

/-- The native value of a managed value of a type, and the handles with those of the objects in
it. -/
def toNative (m : BindingModel) (heap : Heap) :
    ManagedType → HandleTable → ManagedValue → Except ConversionFault NativeValue × HandleTable
  | .void, handles, _ => (.ok .void, handles)
  | .primitive p, handles, v =>
    match v with
    | .null => (.error (.nullNotAllowed p.keyword), handles)
    | .scalar s => ((convertScalar p s v.typeName).map .scalar, handles)
    | _ => (.error (.typeMismatch p.keyword v.typeName), handles)
  | .string, handles, v =>
    match v with
    | .null => (.ok .null, handles)
    | .string s =>
      match ConstText.ofText? s with
      | some t => (.ok (.str t), handles)
      | none => (.error (.invalidString .interiorNul), handles)
    | _ => (.error (.typeMismatch ManagedType.string.text v.typeName), handles)
  | .enum path, handles, v =>
    match m.enum? path with
    | none => (.error (.unknownEnum path), handles)
    | some e =>
      match v with
      | .null => (.error (.nullNotAllowed path.dotted), handles)
      | .enum w =>
        if w.type = path then
          let n := if e.underlying.isSigned then w.toInt else w.bits.toNat
          ((integerOf e.underlying n).map .scalar, handles)
        else (.error (.typeMismatch path.dotted w.type.dotted), handles)
      | .scalar (.integer _ n _) => ((integerOf e.underlying n).map .scalar, handles)
      | _ => (.error (.typeMismatch path.dotted v.typeName), handles)
  | .object path, handles, v =>
    match v with
    | .null => (.ok .null, handles)
    | .object o =>
      if m.isAssignable o.type path then
        let (h, handles) := handles.root o
        (.ok (.handle h), handles)
      else (.error (.incompatibleHandle path o.type), handles)
    | _ => (.error (.typeMismatch path.dotted v.typeName), handles)
  | .array element, handles, v =>
    match v with
    | .null => (.ok .null, handles)
    | .array ref =>
      match nativeKind m element with
      | .error e => (.error e, handles)
      | .ok kind =>
        match NativeArray.new? kind with
        | none => (.error (.typeMismatch (ManagedType.array element).text kind.text), handles)
        | some a =>
          let (result, handles) := writeAll (toNative m heap element) a handles (heap.items ref)
          (result.map .array, handles)
    | _ => (.error (.typeMismatch (ManagedType.array element).text v.typeName), handles)

end Interop.Marshal
