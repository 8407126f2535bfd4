/-
# The generated files

The header and the source of a model, and the support header with the interface of the runtime.
-/
import Interop.Abi
import Interop.C.Stub

namespace Interop.C

open Model

/-- The declarations of the runtime's interface. -/
def supportDeclarations : List String :=
  ["/* Allocate only through m2n_string_new: the runtime keeps private storage past `len`. */",
   "typedef struct M2nString \x7b",
   "    char* str;",
   "    size_t len;",
   "\x7d M2nString;",
   "",
   "/* Allocate only through m2n_array_new. */",
   "typedef struct M2nArray \x7b",
   "    void* data;",
   "    size_t len;",
   "    uint32_t element_kind;",
   "\x7d M2nArray;",
   "",
   "typedef union M2nPayload \x7b",
   "    bool b;",
   "    uint16_t c;",
   "    int8_t i8;",
   "    uint8_t u8;",
   "    int16_t i16;",
   "    uint16_t u16;",
   "    int32_t i32;",
   "    uint32_t u32;",
   "    int64_t i64;",
   "    uint64_t u64;",
   "    float f32;",
   "    double f64;",
   "    const char* str;",
   "    M2nArray* array;",
   "    void* handle;",
   "    void* ptr;",
   "\x7d M2nPayload;",
   "",
   "typedef struct M2nValue \x7b",
   "    uint32_t kind;",
   "    bool by_ref;",
   "    M2nPayload payload;",
   "\x7d M2nValue;",
   "",
   "#define M2N_ARG(slot, k, field, value) \\",
   "    ((slot).kind = (k), (slot).by_ref = false, (slot).payload.field = (value))",
   "#define M2N_ARG_REF(slot, k, pointer) \\",
   "    ((slot).kind = (k), (slot).by_ref = true, (slot).payload.ptr = (void*)(pointer))",
   "",
   "#define m2n_array_index_as(array, type, index) (*(const type*)m2n_array_index((array), (index)))",
   "",
   "M2nString* m2n_string_new(const char* text);",
   "void m2n_string_assign(M2nString* string, const char* text);",
   "void m2n_string_append(M2nString* string, const char* text);",
   "void m2n_string_free(M2nString* string);",
   "",
   "M2nArray* m2n_array_new(uint32_t kind);",
   "void m2n_array_append_vals(M2nArray* array, const void* values, size_t count);",
   "size_t m2n_array_len(const M2nArray* array);",
   "const void* m2n_array_index(const M2nArray* array, size_t index);",
   "void m2n_array_free(M2nArray* array);",
   "",
   "int32_t m2n_invoke(const char* symbol, M2nValue* args, size_t argc, M2nValue* result);",
   "const char* m2n_last_error(void);"]

/-- The support header: the codes of kinds and statuses, and the runtime's interface. -/
def supportHeader : String :=
  unlines <| preamble ++
    ["#pragma once", "", "#include <stdbool.h>", "#include <stddef.h>", "#include <stdint.h>",
     ""] ++
    openLinkage ++
    Native.Kind.all.map (fun k => s!"#define {k.constant} {k.code}") ++ [""] ++
    Status.all.map (fun s => s!"#define {s.constant} {s.code}") ++ [""] ++
    supportDeclarations ++ [""] ++ closeLinkage

/-- A generated file. -/
structure GeneratedFile where
  name : String
  contents : String

/-- The names that a library can have. -/
def isLibraryName (name : String) : Bool :=
  !name.isEmpty && name.toList.all fun c => c.isAlphanum || c == '_' || c == '-'

/-- Generates the files of a model. -/
def generate (o : Options) (m : BindingModel) : Except GeneratorFault (List GeneratedFile) := do
  if !isLibraryName o.libraryName then throw (.invalidLibraryName o.libraryName)
  let source ← source o m
  let support := if o.supportFiles then [⟨supportName, supportHeader⟩] else []
  return ⟨o.headerName, header o m⟩ :: ⟨o.sourceName, source⟩ :: support

end Interop.C
