/-
# The generated source

For each function a stub: it packs its arguments into slots, calls the entry point with its own
symbol, and unpacks the result.
-/
import Interop.C.Header

namespace Interop.C

open Model Native

/-- How a stub fills one slot. -/
structure PackedArgument where
  slot : Slot
  /-- The slot points at the caller's storage instead of holding the value. -/
  isByRef : Bool
  /-- The C expression for the value or for the pointer. -/
  expression : String
deriving DecidableEq

/-- The line that fills the slot at a place. -/
def PackedArgument.line (a : PackedArgument) (i : Nat) : String :=
  if a.isByRef then s!"    M2N_ARG_REF(__args[{i}], {a.slot.kind.constant}, {a.expression});"
  else
    s!"    M2N_ARG(__args[{i}], {a.slot.kind.constant}, {a.slot.field.name}, {a.expression});"

/-- How the receiver is packed. -/
def packReceiver : PackedArgument := ⟨⟨.handle, .handle⟩, false, "(void*)__object"⟩

/-- How a parameter is packed. -/
def packParameter (m : BindingModel) (p : BoundParam) : Except GeneratorFault PackedArgument := do
  let slot ← slotOf m p.type
  let name := parameterName p.name
  if p.direction.isByRef then return ⟨slot, true, name⟩
  else
    match p.type with
    | .enum path =>
      let e ← boundEnum m path
      return ⟨slot, false, s!"({primitiveType e.underlying}){name}"⟩
    | .object _ => return ⟨slot, false, "(void*)" ++ name⟩
    | .array _ => return ⟨slot, false, name ++ ".array"⟩
    | _ => return ⟨slot, false, name⟩

/-- How a stub reads the result. -/
inductive Unpacked
  | nothing
  /-- A field of the payload, with a cast to a type if one is needed. -/
  | field (f : Field) (cast : Option String)
  /-- An array, inside the structure of its own type. -/
  | array (type : String)
deriving DecidableEq

/-- The field of the payload that is read, if any. -/
def Unpacked.field? : Unpacked → Option Field
  | nothing => none
  | field f _ => some f
  | array _ => some .array

/-- How a result of a type is read. -/
def unpack (m : BindingModel) (type : ManagedType) : Except GeneratorFault Unpacked :=
  match type with
  | .void => .ok .nothing
  | .primitive _ | .string => (slotOf m type).map fun s => .field s.field none
  | .enum _ => (slotOf m type).map fun s => .field s.field (some (valueType type))
  | .object _ => .ok (.field .handle (some (valueType type)))
  | .array _ => .ok (.array (valueType type))

/-- The lines that read the result and return it. -/
def Unpacked.lines : Unpacked → List String
  | nothing => []
  | field f none => [s!"    return __result.payload.{f.name};"]
  | field f (some type) => [s!"    return ({type})__result.payload.{f.name};"]
  | array type =>
    [s!"    {type} __array;", "    __array.array = __result.payload.array;",
     "    return __array;"]

/-- The body of a function in the generated source. -/
structure Stub where
  function : NativeFunction
  arguments : List PackedArgument
  result : Unpacked

namespace Stub

/-- The stub of a function. -/
def of (m : BindingModel) (f : NativeFunction) : Except GeneratorFault Stub := do
  let params ← f.params.mapM (packParameter m)
  let result ← unpack m f.returns
  return ⟨f, (if f.takesHandle then [packReceiver] else []) ++ params, result⟩

/-- The lines of a stub. -/
def lines (api : String) (s : Stub) : List String :=
  let count := s.function.arity
  let slots := if count > 0 then [s!"    M2nValue __args[{count}];"] else []
  let args := if count > 0 then "__args" else "NULL"
  prototype api s.function :: "\x7b" :: slots ++ ["    M2nValue __result = \x7b0\x7d;"] ++
    s.arguments.mapIdx (fun i a => a.line i) ++
    [s!"    __m2n_call(\"{s.function.symbol}\", {args}, {count}, &__result);"] ++
    s.result.lines ++ ["\x7d"]

end Stub

/-- What every generated source holds: the reaction to failed calls. -/
def failureHandling : List String :=
  ["/* Define M2N_ON_FAILURE to handle failed calls differently. Results are zeroed on failure. */",
   "#ifndef M2N_ON_FAILURE",
   "static void __m2n_abort(const char* symbol, int32_t status)",
   "\x7b",
   "    const char* message = m2n_last_error();",
   "    fprintf(stderr, \"%s failed with status %d: %s\\n\", symbol, (int)status, message ? message : \"unknown error\");",
   "    abort();",
   "\x7d",
   "",
   "#define M2N_ON_FAILURE(symbol, status) __m2n_abort((symbol), (status))",
   "#endif",
   "",
   "static void __m2n_call(const char* symbol, M2nValue* args, size_t argc, M2nValue* result)",
   "\x7b",
   "    int32_t status = m2n_invoke(symbol, args, argc, result);",
   "    if (status != M2N_OK)",
   "        M2N_ON_FAILURE(symbol, status);",
   "\x7d"]

/-- The stubs of the functions of a model, in order. -/
def stubs (m : BindingModel) : Except GeneratorFault (List Stub) := m.functions.mapM (Stub.of m)

/-- The source of a model. -/
def source (o : Options) (m : BindingModel) : Except GeneratorFault String := do
  let stubs ← stubs m
  return unlines <| preamble ++
    [s!"#include \"{o.headerName}\"", "", "#include <stdio.h>", "#include <stdlib.h>", ""] ++
    failureHandling ++ stubs.flatMap fun s => "" :: s.lines o.apiMacro

end Interop.C
