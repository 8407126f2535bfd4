/-
# Calls

The managed side of a bound model at work: the heap, the handles given out, the static fields
and the code registered for members.  A call converts its arguments, runs the code of the
member, converts the result and the arguments passed by reference, and only then writes to the
slots of the caller.

Main definition: `Session.invoke`.
-/
import Interop.Managed.Program
import Interop.Marshal

namespace Interop

open Model Native Managed Marshal

/-- Why a call failed. -/
inductive CallError
  | unknownSymbol (symbol : String)
  | arity (symbol : String) (expected found : Nat)
  | conversion (symbol parameter : String) (fault : ConversionFault)
  | managed (symbol : String) (failure : ManagedFailure)
  | missingImplementation (symbol signature : String)
deriving DecidableEq

/-- The wording of a failed call. -/
def CallError.message : CallError → String
  | unknownSymbol symbol => s!"unknown native symbol '{symbol}'"
  | arity symbol expected found => s!"{symbol} takes {expected} native arguments, {found} given"
  | conversion symbol parameter fault =>
    s!"{symbol}: cannot convert '{parameter}': {fault.message}"
  | managed symbol failure => s!"{symbol}: {failure.message}"
  | missingImplementation symbol signature =>
    s!"{symbol}: no managed implementation registered for '{signature}'"

/-- The managed side of a model. -/
structure Session where
  model : BindingModel
  heap : Heap
  handles : HandleTable
  statics : Statics
  /-- The code of members, by class and signature. -/
  implementations : Table (TypePath × String) Program

/-- What a call leaves behind: the managed side, its result, and the slots of the caller. -/
structure CallOutcome where
  session : Session
  result : Except CallError NativeValue
  slots : List NativeValue

namespace Session

/-- Nothing registered and no objects. -/
def ofModel (model : BindingModel) : Session := ⟨model, .empty, .empty, .empty, .empty⟩

/-- Registers the code of a member, in place of any it had. -/
def define (s : Session) (type : TypePath) (signature : String) (p : Program) : Session :=
  { s with implementations := s.implementations.set (type, signature) p }

/-- Sets a static field. -/
def setStatic (s : Session) (type : TypePath) (name : String) (v : ManagedValue) : Session :=
  { s with statics := s.statics.set (type, name) v }

/-- The code registered for a function. -/
def implementation? (s : Session) (f : NativeFunction) : Option Program :=
  s.implementations.get? (f.owner, f.signature)

/-- The member that every object has: its text. -/
def isToString (f : NativeFunction) : Bool :=
  f.member = "ToString" && f.params.isEmpty && f.returns = .string

/-- The functions that have neither code nor a default behaviour. -/
def unimplemented (s : Session) : List NativeFunction :=
  s.model.functions.filter fun f =>
    f.kind = .method && !isToString f && (s.implementation? f).isNone

/-- The default behaviour of a member without code: constructors do nothing, accessors keep the
property in a field of its name, and `ToString` gives the name of the class. -/
def default? (m : BindingModel) (c : Call) :
    Option (Except ManagedFailure ManagedValue × Call) :=
  let f := c.function
  match f.kind with
  | .constructor => some (.ok .null, c)
  | .getter property =>
    let answer (stored : Option ManagedValue) :=
      some (.ok (stored.getD (defaultValue m f.returns)), c)
    match c.receiver with
    | some o => answer (c.heap.field? o property)
    | none => if f.isStatic then answer (c.static? property) else some (.error .noInstance, c)
  | .setter property =>
    let v := c.arguments.head?.getD .null
    match c.receiver with
    | some o => some (.ok .null, { c with heap := c.heap.setField o property v })
    | none =>
      if f.isStatic then
        some (.ok .null, { c with statics := c.statics.set (f.owner, property) v })
      else some (.error .noInstance, c)
  | .method => if isToString f then some (.ok (.string f.owner.dotted), c) else none

/-- Runs the code of a member or its default behaviour. -/
def dispatch (s : Session) (c : Call) : Option (Except ManagedFailure ManagedValue × Call) :=
  match s.implementation? c.function with
  | some p => some (p.run c)
  | none => default? s.model c

/-- The receiver of a call: a new object for a constructor, the object of the first slot for an
instance member, and none for a static one. -/
def receiver (s : Session) (f : NativeFunction) (slot : Option NativeValue) :
    Except ConversionFault (Option ObjectRef × Heap) :=
  if f.takesHandle then
    match slot.getD .void with
    | .handle h => (resolve s.model s.handles h f.owner).map (some ·, s.heap)
    | .null => .error (.nullNotAllowed f.owner.dotted)
    | v => .error (.typeMismatch f.owner.dotted v.describe)
  else if f.kind = .constructor then
    let (o, heap) := s.heap.newObject f.owner
    .ok (some o, heap)
  else .ok (none, s.heap)

/-- The values of the parameters: the default value of its type for an out parameter, and else
the value of its slot.  A fault names the parameter. -/
def readArguments (m : BindingModel) (handles : HandleTable) :
    Heap → List (BoundParam × NativeValue) →
      Except (String × ConversionFault) (List ManagedValue × Heap)
  | heap, [] => .ok ([], heap)
  | heap, (p, slot) :: rest =>
    let value : Except ConversionFault (ManagedValue × Heap) :=
      match p.direction with
      | .out => .ok (defaultValue m p.type, heap)
      | .input | .ref => toManaged m handles p.type heap slot
    match value with
    | .error e => .error (p.name, e)
    | .ok (v, heap) =>
      match readArguments m handles heap rest with
      | .error e => .error e
      | .ok (vs, heap) => .ok (v :: vs, heap)

/-- The native values of the parameters passed by reference; none for the others.  Handles given
out before a fault stay given out. -/
def writeArguments (m : BindingModel) (heap : Heap) :
    HandleTable → List BoundParam → List ManagedValue →
      Except (String × ConversionFault) (List (Option NativeValue)) × HandleTable
  | handles, [], _ => (.ok [], handles)
  | handles, p :: ps, vs =>
    if p.direction.isByRef then
      match toNative m heap p.type handles (vs.head?.getD .null) with
      | (.error e, handles) => (.error (p.name, e), handles)
      | (.ok n, handles) =>
        match writeArguments m heap handles ps vs.tail with
        | (.error e, handles) => (.error e, handles)
        | (.ok ns, handles) => (.ok (some n :: ns), handles)
    else
      match writeArguments m heap handles ps vs.tail with
      | (.error e, handles) => (.error e, handles)
      | (.ok ns, handles) => (.ok (none :: ns), handles)

/-- Writes a value to a slot.  A text buffer stays the same buffer and has its whole content
replaced; null leaves it empty. -/
def writeBack : NativeValue → NativeValue → NativeValue
  | .text b, .str t => .text (b.assign t.octets)
  | .text b, .null => .text (b.assign [])
  | _, v => v

/-- Writes to the slots for which there is a value. -/
def writeSlots (slots : List NativeValue) (values : List (Option NativeValue)) :
    List NativeValue :=
  slots.zipWith (fun slot v => match v with | some v => writeBack slot v | none => slot) values

/-- What a function returns: the new object of a constructor, whatever its code returned, and
else the result of its code. -/
def returned (c : Call) (result : ManagedValue) : ManagedValue :=
  match c.function.kind, c.receiver with
  | .constructor, some o => .object o
  | _, _ => result

/-- The end of a call, after the code of the member has returned. -/
def finish (s : Session) (c : Call) (result : ManagedValue) (slots : List NativeValue) :
    CallOutcome :=
  let f := c.function
  let s := { s with heap := c.heap, statics := c.statics }
  match toNative s.model s.heap f.returns s.handles (returned c result) with
  | (.error e, handles) =>
    ⟨{ s with handles }, .error (.conversion f.symbol "return" e), slots⟩
  | (.ok value, handles) =>
    match writeArguments s.model s.heap handles f.params c.arguments with
    | (.error (name, e), handles) =>
      ⟨{ s with handles }, .error (.conversion f.symbol name e), slots⟩
    | (.ok values, handles) =>
      let first := if f.takesHandle then [none] else []
      ⟨{ s with handles }, .ok value, writeSlots slots (first ++ values)⟩

/-- The start of a call: the state in which the code of the member begins. -/
def prepare (s : Session) (f : NativeFunction) (slots : List NativeValue) :
    Except CallError Call :=
  match s.receiver f slots.head? with
  | .error e => .error (.conversion f.symbol "this" e)
  | .ok (receiver, heap) =>
    let own := if f.takesHandle then slots.tail else slots
    match readArguments s.model s.handles heap (f.params.zip own) with
    | .error (name, e) => .error (.conversion f.symbol name e)
    | .ok (arguments, heap) => .ok ⟨f, receiver, arguments, s.statics, heap⟩

/-- Calls a function with as many slots as it takes. -/
def call (s : Session) (f : NativeFunction) (slots : List NativeValue) : CallOutcome :=
  match s.prepare f slots with
  | .error e => ⟨s, .error e, slots⟩
  | .ok c =>
    match s.dispatch c with
    | none => ⟨s, .error (.missingImplementation f.symbol f.signature), slots⟩
    | some (.error failure, c) =>
      ⟨{ s with heap := c.heap, statics := c.statics }, .error (.managed f.symbol failure), slots⟩
    | some (.ok result, c) => s.finish c result slots

/-- Calls the function with the given symbol.  If the call fails, all slots keep their values. -/
def invoke (s : Session) (symbol : String) (slots : List NativeValue) : CallOutcome :=
  match s.model.function? symbol with
  | none => ⟨s, .error (.unknownSymbol symbol), slots⟩
  | some f =>
    if slots.length = f.arity then s.call f slots
    else ⟨s, .error (.arity f.symbol f.arity slots.length), slots⟩

end Session

end Interop
