/-
# The C calling convention

Calls as generated code makes them: an array of slots, each with the code of a kind and either
the bits of a value or a pointer to storage of the caller.  Slots are checked and read before
any managed code runs; storage and the result are written only when the whole call succeeded.

Main definition: `Endpoint.invoke`.
-/
import Interop.Native.Field
import Interop.Session

namespace Interop

open Model Native Managed Marshal

/-- What a call reports. -/
inductive Status
  | ok | noRuntime | unknownSymbol | arity | conversion | managedFailure | missingImplementation
  | invalidArgument
deriving DecidableEq

namespace Status

/-- All statuses, in the order of their codes. -/
def all : List Status :=
  [ok, noRuntime, unknownSymbol, arity, conversion, managedFailure, missingImplementation,
   invalidArgument]

/-- The number that stands for a status. -/
def code : Status → Nat
  | ok => 0
  | noRuntime => 1
  | unknownSymbol => 2
  | arity => 3
  | conversion => 4
  | managedFailure => 5
  | missingImplementation => 6
  | invalidArgument => 7

/-- The name of the constant for a status in generated code. -/
def constant : Status → String
  | ok => "M2N_OK"
  | noRuntime => "M2N_NO_RUNTIME"
  | unknownSymbol => "M2N_UNKNOWN_SYMBOL"
  | arity => "M2N_ARITY"
  | conversion => "M2N_CONVERSION"
  | managedFailure => "M2N_MANAGED_FAILURE"
  | missingImplementation => "M2N_MISSING_IMPLEMENTATION"
  | invalidArgument => "M2N_INVALID_ARGUMENT"

end Status

/-- The status of a failed call. -/
def CallError.status : CallError → Status
  | unknownSymbol _ => .unknownSymbol
  | arity .. => .arity
  | conversion .. => .conversion
  | managed .. => .managedFailure
  | missingImplementation .. => .missingImplementation

namespace Abi

/-- The content of the eight bytes of a payload. -/
inductive Payload
  /-- A number, a handle or a null pointer. -/
  | word (bits : Nat)
  /-- A pointer to constant text. -/
  | text (t : ConstText)
  /-- A pointer to an array. -/
  | array (a : NativeArray)
deriving DecidableEq

/-- The null pointer. -/
def Payload.null : Payload := .word 0

/-- The bits of a payload as a number.  Pointers have addresses of their own that do not matter
here. -/
def Payload.bits : Payload → Nat
  | word bits => bits
  | text _ | array _ => 0

/-- Storage of the caller. -/
inductive Storage
  | word (bits : Nat)
  /-- A growable text buffer. -/
  | text (b : TextBuffer)
deriving DecidableEq

/-- Where a slot has its value. -/
inductive Passing
  | byValue (payload : Payload)
  /-- A pointer to storage, or the null pointer. -/
  | byRef (storage : Option Storage)
deriving DecidableEq

/-- A slot.  The code of its kind may be any number. -/
structure Slot where
  kind : Nat
  passing : Passing
deriving DecidableEq

/-- Why a slot cannot be read. -/
inductive SlotFault
  | unknownKind (code : Nat)
  | nullStorage
  | notByRef
  | arrayByRef
deriving DecidableEq

/-- The wording of a fault. -/
def SlotFault.message : SlotFault → String
  | unknownKind code => s!"unknown kind {code}"
  | nullStorage => "null pointer for an out or ref parameter"
  | notByRef => "out and ref parameters need a by_ref slot"
  | arrayByRef => "arrays cannot be passed by reference"

/-- Reads storage as a value of a kind. -/
def readStorage (kind : Kind) (s : Storage) : NativeValue :=
  match kind, s with
  | .scalar p, .word bits => .scalar (Scalar.ofBits p bits)
  | .handle, .word bits => .ofRawHandle bits
  | .string, .text b => .text b.copy
  | _, _ => .void

/-- The member of the payload that a value of a kind is read from.  Nothing is read for none. -/
def payloadField? : Kind → Option Field
  | .void => none
  | .scalar .bool => some .b
  | .scalar .char => some .c
  | .scalar .int8 => some .i8
  | .scalar .uint8 => some .u8
  | .scalar .int16 => some .i16
  | .scalar .uint16 => some .u16
  | .scalar .int32 => some .i32
  | .scalar .uint32 => some .u32
  | .scalar .int64 => some .i64
  | .scalar .uint64 => some .u64
  | .scalar .float32 => some .f32
  | .scalar .float64 => some .f64
  | .string => some .str
  | .handle => some .handle
  | .array => some .array

/-- The value of a member of a payload. -/
def Payload.read (p : Payload) (f : Field) : NativeValue :=
  match f.primitive? with
  | some q => .scalar (Scalar.ofBits q p.bits)
  | none =>
    match f, p with
    | .str, .text t => .str t
    | .array, .array a => .array a.copy
    | .handle, p => .ofRawHandle p.bits
    | _, _ => .null

/-- Reads a payload as a value of a kind. -/
def readPayload (kind : Kind) (p : Payload) : NativeValue :=
  match payloadField? kind with
  | some f => p.read f
  | none => .void

/-- Reads a slot for a parameter of a direction.  The storage of an out parameter is not
looked at. -/
def decode (s : Slot) (d : Direction) : Except SlotFault NativeValue :=
  match Kind.ofCode? s.kind with
  | none => .error (.unknownKind s.kind)
  | some kind =>
    match s.passing with
    | .byRef none => .error .nullStorage
    | .byRef (some storage) =>
      if d = .out then .ok (.zero kind)
      else if kind = .array then .error .arrayByRef
      else .ok (readStorage kind storage)
    | .byValue payload => if d.isByRef then .error .notByRef else .ok (readPayload kind payload)

/-- Writes a value to storage.  A text replaces the content of the buffer, and null leaves a
buffer empty and a handle null. -/
def writeStorage (s : Storage) (v : NativeValue) : Storage :=
  match s, v with
  | .word _, .scalar x => .word (x.bits)
  | .word _, .handle h => .word h.raw
  | .word _, .null => .word 0
  | .text b, .text c => .text (b.assign c.octets)
  | .text b, .str t => .text (b.assign t.octets)
  | .text b, .null => .text (b.assign [])
  | s, _ => s

/-- Writes a value to the storage of a slot. -/
def writeThrough (s : Slot) (v : NativeValue) : Slot :=
  match s.passing with
  | .byRef (some storage) => { s with passing := .byRef (some (writeStorage storage v)) }
  | _ => s

/-- Packs the result of a call. -/
def encode : NativeValue → Slot
  | .void | .null => ⟨Kind.void.code, .byValue .null⟩
  | .scalar s => ⟨(Kind.scalar s.type).code, .byValue (.word (s.bits))⟩
  | .str t => ⟨Kind.string.code, .byValue (.text t)⟩
  | .text b => ⟨Kind.string.code, .byValue (.text ((ConstText.ofOctets? b.octets).getD (.ofOctets [])))⟩
  | .array a => ⟨Kind.array.code, .byValue (.array a)⟩
  | .handle h => ⟨Kind.handle.code, .byValue (.word h.raw)⟩

/-- Tells whether storage of a kind can take a value. -/
def fitsSlot (kind : Nat) (v : NativeValue) : Bool :=
  match v with
  | .null => kind = Kind.handle.code || kind = Kind.string.code
  | v => v.kind.code = kind

/-- Why a call through slots failed. -/
inductive Failure
  | call (e : CallError)
  /-- The kind of a parameter is not known. -/
  | unknownKind (e : ConversionFault)
  /-- A slot for a parameter passed by reference has another kind than the parameter. -/
  | slotKind (index : Nat) (parameter : String) (expected : Kind) (found : Nat)
  | slot (index : Nat) (fault : SlotFault)
  /-- The final value of a parameter does not fit its slot. -/
  | unfit (index : Nat) (kind : Nat) (found : NativeValue)
deriving DecidableEq

/-- The status of a failure. -/
def Failure.status : Failure → Status
  | call e => e.status
  | unknownKind _ => .conversion
  | slotKind .. | slot .. | unfit .. => .invalidArgument

/-- The wording of a failure. -/
def Failure.message : Failure → String
  | call e => e.message
  | unknownKind e => e.message
  | slotKind index parameter expected found =>
    s!"argument {index}: parameter '{parameter}' needs a slot of kind {expected.constant}, " ++
      s!"found {found}"
  | slot index fault => s!"argument {index}: {fault.message}"
  | unfit index kind found =>
    s!"argument {index}: slot of kind {kind} cannot hold {found.describe}"

/-- The parameter of each slot; none for the receiver. -/
def slotParams (f : NativeFunction) : List (Option BoundParam) :=
  (if f.takesHandle then [none] else []) ++ f.params.map some

/-- The direction of a slot; receivers travel in. -/
def slotDirection (p : Option BoundParam) : Direction := (p.map (·.direction)).getD .input

/-- Checks the kinds of the slots for parameters passed by reference, from place `i` on. -/
def checkKinds (m : BindingModel) : Nat → List (Slot × Option BoundParam) → Except Failure Unit
  | _, [] => .ok ()
  | i, (s, some p) :: rest =>
    if p.direction.isByRef then
      match nativeKind m p.type with
      | .error e => .error (.unknownKind e)
      | .ok kind =>
        if s.kind = kind.code then checkKinds m (i + 1) rest
        else .error (.slotKind i p.name kind s.kind)
    else checkKinds m (i + 1) rest
  | i, (_, none) :: rest => checkKinds m (i + 1) rest

/-- Reads the slots from place `i` on. -/
def decodeAll : Nat → List (Slot × Direction) → Except Failure (List NativeValue)
  | _, [] => .ok []
  | i, (s, d) :: rest =>
    match decode s d with
    | .error fault => .error (.slot i fault)
    | .ok v => (decodeAll (i + 1) rest).map (v :: ·)

/-- Checks that the final values fit the slots passed by reference, from place `i` on. -/
def checkFit : Nat → List ((Slot × Direction) × NativeValue) → Except Failure Unit
  | _, [] => .ok ()
  | i, ((s, d), v) :: rest =>
    if d.isByRef && !fitsSlot s.kind v then .error (.unfit i s.kind v)
    else checkFit (i + 1) rest

/-- What a call through slots leaves behind. -/
structure SlotOutcome where
  session : Session
  result : Except Failure NativeValue
  slots : List Slot

/-- Calls the function with the given symbol through slots. -/
def invokeSlots (s : Session) (symbol : String) (slots : List Slot) : SlotOutcome :=
  let failed (e : Failure) : SlotOutcome := ⟨s, .error e, slots⟩
  match s.model.function? symbol with
  | none => failed (.call (.unknownSymbol symbol))
  | some f =>
    if slots.length = f.arity then
      let params := slotParams f
      let directed := slots.zip (params.map slotDirection)
      match checkKinds s.model 0 (slots.zip params) with
      | .error e => failed e
      | .ok () =>
        match decodeAll 0 directed with
        | .error e => failed e
        | .ok values =>
          let outcome := s.invoke symbol values
          match outcome.result with
          | .error e => ⟨outcome.session, .error (.call e), slots⟩
          | .ok result =>
            match checkFit 0 (directed.zip outcome.slots) with
            | .error e => ⟨outcome.session, .error e, slots⟩
            | .ok () =>
              let write : Slot × Direction → NativeValue → Slot := fun (slot, d) v =>
                if d.isByRef then writeThrough slot v else slot
              ⟨outcome.session, .ok result, directed.zipWith write outcome.slots⟩
    else failed (.call (.arity symbol f.arity slots.length))

end Abi

/-- The entry point of one thread: the managed side that serves it, and the message of its last
failed call. -/
structure Endpoint where
  session : Option Session
  lastError : Option String

namespace Endpoint

open Abi

/-- No managed side and no failed call. -/
def empty : Endpoint := ⟨none, none⟩

/-- The arguments of a call: slots, or a null pointer with the count that goes with it. -/
inductive Arguments
  | slots (ss : List Slot)
  | null (count : Nat)
deriving DecidableEq

/-- The slots that are there. -/
def Arguments.toList : Arguments → List Slot
  | slots ss => ss
  | null _ => []

/-- What a call leaves behind.  Without a `result` the caller's slot for it is untouched. -/
structure Outcome where
  endpoint : Endpoint
  status : Status
  result : Option Slot
  slots : List Slot

/-- A message as constant text can hold it. -/
def errorText (message : String) : String :=
  String.ofList (message.toList.map fun c => if c = '\x00' then ' ' else c)

/-- A call that fails before it reaches the managed side. -/
def refuse (e : Endpoint) (status : Status) (message : String) (args : Arguments) : Outcome :=
  ⟨{ e with lastError := some (errorText message) }, status, none, args.toList⟩

/-- Calls the function whose symbol is the given constant text; none is the null pointer. -/
def invoke (e : Endpoint) (symbol : Option ConstText) (args : Arguments) : Outcome :=
  let missing := match args with
    | .slots _ => false
    | .null count => count > 0
  match symbol with
  | none => e.refuse .invalidArgument "null symbol or argument array" args
  | some symbol =>
    if missing then e.refuse .invalidArgument "null symbol or argument array" args
    else
      match Text.ofUtf8 symbol.octets with
      | .error _ => e.refuse .invalidArgument "symbol is not valid UTF-8" args
      | .ok symbol =>
        match e.session with
        | none => e.refuse .noRuntime "no runtime is installed on this thread" args
        | some s =>
          let outcome := invokeSlots s symbol args.toList
          match outcome.result with
          | .ok result =>
            ⟨⟨some outcome.session, none⟩, .ok, some (encode result), outcome.slots⟩
          | .error failure =>
            ⟨⟨some outcome.session, some (errorText failure.message)⟩, failure.status, none,
              outcome.slots⟩

end Endpoint

end Interop
