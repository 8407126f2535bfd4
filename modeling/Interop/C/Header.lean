/-
# The generated header

The declarations of a model in an order in which C can read them: enums, handle types, array
types, and then the prototypes of the functions, class by class.
-/
import Interop.C.Type

namespace Interop.C

open Model

/-- What the user of the generator can choose. -/
structure Options where
  /-- The name of the header and the source, without ending. -/
  libraryName : String
  /-- Write the support header too, and include it from the same folder. -/
  supportFiles : Bool
  /-- The macro in front of every function. -/
  apiMacro : String

/-- The choices of a user who chooses nothing. -/
def Options.default : Options := ⟨"managed", true, "M2N_API"⟩

/-- The name of the header. -/
def Options.headerName (o : Options) : String := o.libraryName ++ ".h"

/-- The name of the source. -/
def Options.sourceName (o : Options) : String := o.libraryName ++ ".c"

/-- The name of the support header. -/
def supportName : String := "m2n_support.h"

/-- A text of lines. -/
def unlines (ls : List String) : String := String.join (ls.map (· ++ "\n"))

/-- The first lines of every generated file. -/
def preamble : List String :=
  ["/*",
   " * This is autogenerated code.",
   " * Do not edit this file or all your changes will be lost after re-generation.",
   " */"]

/-- The lines that make a header usable from C++, before its declarations. -/
def openLinkage : List String := ["#ifdef __cplusplus", "extern \"C\" \x7b", "#endif", ""]

/-- The lines that end what `openLinkage` begins. -/
def closeLinkage : List String := ["#ifdef __cplusplus", "\x7d", "#endif"]

/-- The prototype of a function, as in `M2N_API int32_t Ns_T_Member(Ns_T* __object, int32_t x)`. -/
def prototype (api : String) (f : NativeFunction) : String :=
  let receiver := if f.takesHandle then [f.owner.symbol ++ "* __object"] else []
  let params := receiver ++
    f.params.map fun p => parameterType p.type p.direction ++ " " ++ parameterName p.name
  let list := if params.isEmpty then "void" else ", ".intercalate params
  s!"{api} {valueType f.returns} {f.symbol}({list})"

/-- A group of declarations. -/
inductive Section
  | enumType (e : BoundEnum)
  | handleTypes (names : List String)
  | arrayTypes (elements : List ManagedType)
  | prototypes (owner : TypePath) (functions : List NativeFunction)

namespace Section

/-- The lines of a group. -/
def lines (api : String) : Section → List String
  | enumType e =>
    let title := if e.isFlags then s!"/* {e.path.dotted} (flags) */" else s!"/* {e.path.dotted} */"
    let item (i : BoundEnumItem) : String :=
      s!"#define {i.symbol} (({e.nativeName}){enumLiteral i.value e.underlying})"
    title :: s!"typedef {primitiveType e.underlying} {e.nativeName};" :: e.items.map item
  | handleTypes names => names.map fun name => s!"typedef struct {name} {name};"
  | arrayTypes elements =>
    elements.map fun e =>
      s!"typedef struct {e.arraySymbol} \x7b M2nArray* array; \x7d {e.arraySymbol};"
  | prototypes owner functions =>
    s!"/* {owner.dotted} */" :: functions.map fun f => prototype api f ++ ";"

/-- The functions that a group declares. -/
def functions : Section → List NativeFunction
  | prototypes _ functions => functions
  | _ => []

/-- The names of the types that a group declares. -/
def typeNames : Section → List String
  | enumType e => [e.nativeName]
  | handleTypes names => names
  | arrayTypes elements => elements.map (·.arraySymbol)
  | prototypes _ _ => []

end Section

/-- The groups of declarations of a model.  There are no empty groups. -/
def sections (m : BindingModel) : List Section :=
  let handles := (m.classes.filter (!·.isStatic)).map (·.nativeName)
  let arrays := m.arrayElements
  m.enums.map .enumType ++
    (if handles.isEmpty then [] else [.handleTypes handles]) ++
    (if arrays.isEmpty then [] else [.arrayTypes arrays]) ++
    m.classes.filterMap fun c =>
      let functions := m.functionsOf c.path
      if functions.isEmpty then none else some (.prototypes c.path functions)

/-- The header of a model. -/
def header (o : Options) (m : BindingModel) : String :=
  let support :=
    if o.supportFiles then s!"#include \"{supportName}\"" else s!"#include <{supportName}>"
  unlines <| preamble ++
    ["#pragma once", "", support, "", s!"#ifndef {o.apiMacro}", s!"#define {o.apiMacro}",
     "#endif", ""] ++
    openLinkage ++ (sections m).flatMap (fun s => s.lines o.apiMacro ++ [""]) ++ closeLinkage

end Interop.C
