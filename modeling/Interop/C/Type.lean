/-
# Managed types in C

How each type is spelled in C as a parameter and as a result, and the kind and the payload
field that carry a value of it in a slot.
-/
import Interop.Model.Basic
import Interop.Native.Field
import Interop.Native.Kind

namespace Interop.C

open Model Native

/-- The spelling of a primitive type. -/
def primitiveType : Primitive → String
  | .bool => "bool"
  | .char => "uint16_t"
  | .int8 => "int8_t"
  | .uint8 => "uint8_t"
  | .int16 => "int16_t"
  | .uint16 => "uint16_t"
  | .int32 => "int32_t"
  | .uint32 => "uint32_t"
  | .int64 => "int64_t"
  | .uint64 => "uint64_t"
  | .float32 => "float"
  | .float64 => "double"

/-- The spelling of a type that is passed by value or returned. -/
def valueType : ManagedType → String
  | .void => "void"
  | .primitive p => primitiveType p
  | .string => "const char*"
  | .enum path => path.symbol
  | .object path => path.symbol ++ "*"
  | .array element => element.arraySymbol

/-- The spelling of the type of a parameter: a pointer to the value when it travels by
reference, and then a growable buffer for a text. -/
def parameterType (type : ManagedType) (d : Direction) : String :=
  if d.isByRef then
    match type with
    | .string => "M2nString*"
    | _ => valueType type ++ "*"
  else valueType type

/-- The name of a parameter in C.  Reserved words, and names that could be those of variables
inside stubs, get an underscore behind them. -/
def parameterName (name : String) : String :=
  if cKeywords.contains name || cppKeywords.contains name || beginsWith name "__" then name ++ "_"
  else name

/-- How a slot carries a value. -/
structure Slot where
  kind : Kind
  field : Field
deriving DecidableEq

/-- How a slot carries a value of a primitive type. -/
def primitiveSlot : Primitive → Slot
  | .bool => ⟨.scalar .bool, .b⟩
  | .char => ⟨.scalar .char, .c⟩
  | .int8 => ⟨.scalar .int8, .i8⟩
  | .uint8 => ⟨.scalar .uint8, .u8⟩
  | .int16 => ⟨.scalar .int16, .i16⟩
  | .uint16 => ⟨.scalar .uint16, .u16⟩
  | .int32 => ⟨.scalar .int32, .i32⟩
  | .uint32 => ⟨.scalar .uint32, .u32⟩
  | .int64 => ⟨.scalar .int64, .i64⟩
  | .uint64 => ⟨.scalar .uint64, .u64⟩
  | .float32 => ⟨.scalar .float32, .f32⟩
  | .float64 => ⟨.scalar .float64, .f64⟩

/-- Why no code can be generated. -/
inductive GeneratorFault
  | unknownEnum (path : TypePath)
  | invalidLibraryName (name : String)
deriving DecidableEq

/-- The wording of a fault. -/
def GeneratorFault.message : GeneratorFault → String
  | unknownEnum path => s!"enum '{path.dotted}' is used but was not bound"
  | invalidLibraryName name =>
    s!"invalid library name '{name}': use letters, digits, '_' or '-'"

/-- The enum with the given path. -/
def boundEnum (m : BindingModel) (path : TypePath) : Except GeneratorFault BoundEnum :=
  match m.enum? path with
  | some e => .ok e
  | none => .error (.unknownEnum path)

/-- How a slot carries a value of a type.  An enum travels as its underlying type. -/
def slotOf (m : BindingModel) : ManagedType → Except GeneratorFault Slot
  | .void => .ok ⟨.void, .ptr⟩
  | .primitive p => .ok (primitiveSlot p)
  | .string => .ok ⟨.string, .str⟩
  | .enum path => (boundEnum m path).map fun e => primitiveSlot e.underlying
  | .object _ => .ok ⟨.handle, .handle⟩
  | .array _ => .ok ⟨.array, .array⟩

/-- The constant for the value of an enum item.  In C a negative number is the negation of a
positive one, so the least numbers of 32 and 64 bits have names. -/
def enumLiteral (value : Int) : Primitive → String
  | .int64 => if value = -twoPow 63 then "INT64_MIN" else s!"INT64_C({value})"
  | .uint64 => s!"UINT64_C({value})"
  | .uint32 => s!"{value}u"
  | .int32 => if value = -twoPow 31 then "INT32_MIN" else toString value
  | _ => toString value

end Interop.C
