/-
# The bound model

What binding makes of an assembly: the classes and enums that are exposed, the flat native
functions that stand in for their members, and the errors for all that could not be bound.
The generator, the runtime and the command line read nothing else.
-/
import Interop.Model.Naming
import Interop.Model.Error

namespace Interop.Model

/-- How the value of a parameter travels. -/
inductive Direction
  | input | out | ref
deriving DecidableEq

/-- Tells whether a parameter is passed by a pointer to the caller's storage. -/
def Direction.isByRef : Direction → Bool
  | input => false
  | out | ref => true

/-- The word for a direction in signatures. -/
def Direction.keyword? : Direction → Option String
  | input => none
  | out => some "out"
  | ref => some "ref"

/-- A parameter of a native function, the receiver not counted. -/
structure BoundParam where
  name : String
  type : ManagedType
  direction : Direction
deriving DecidableEq

/-- The kind of member that a native function stands in for. -/
inductive FunctionKind
  | constructor
  | method
  | getter (property : String)
  | setter (property : String)
deriving DecidableEq

/-- A flat native function that stands in for a member of a class. -/
structure NativeFunction where
  symbol : String
  owner : TypePath
  member : String
  kind : FunctionKind
  isStatic : Bool
  /-- The number of earlier members of the class with the same native name. -/
  ordinal : Nat
  params : List BoundParam
  returns : ManagedType
  span : Span
deriving DecidableEq

namespace NativeFunction

/-- Instance members take the handle of the receiver as their first argument. -/
def takesHandle (f : NativeFunction) : Bool := !f.isStatic && f.kind != .constructor

/-- The number of native arguments. -/
def arity (f : NativeFunction) : Nat := f.params.length + if f.takesHandle then 1 else 0

/-- One thing for the receiver, if there is one, and one for each parameter. -/
theorem length_receiver_append {α : Type} (f : NativeFunction) (receiver : α) {params : List α}
    (h : params.length = f.params.length) :
    ((if f.takesHandle then [receiver] else []) ++ params).length = f.arity := by
  rw [arity, List.length_append, h]
  split
  · rw [List.length_singleton, Nat.add_comm]
  · rw [List.length_nil, Nat.add_comm]

/-- The types of the parameters, then the return type. -/
def types (f : NativeFunction) : List ManagedType := f.params.map (·.type) ++ [f.returns]

/-- The types that a function refers to: its owner and those of its parameters and result. -/
def mentioned (f : NativeFunction) : List TypePath :=
  f.owner :: f.types.filterMap (·.namedPath?)

/-- The text of a parameter in a signature. -/
def paramText (p : BoundParam) : String :=
  match p.direction.keyword? with
  | some word => word ++ " " ++ p.type.text
  | none => p.type.text

/-- The signature by which implementations are registered, as in `PassRefInt(ref int)`. -/
def signature (f : NativeFunction) : String :=
  f.member ++ "(" ++ ", ".intercalate (f.params.map paramText) ++ ")"

end NativeFunction

/-- An exposed class. -/
structure BoundClass where
  path : TypePath
  nativeName : String
  base : Option TypePath
  isStatic : Bool
  span : Span
deriving DecidableEq

/-- An item of an exposed enum. -/
structure BoundEnumItem where
  name : String
  symbol : String
  value : Int
deriving DecidableEq

/-- An exposed enum. -/
structure BoundEnum where
  path : TypePath
  nativeName : String
  underlying : Primitive
  isFlags : Bool
  items : List BoundEnumItem
  span : Span
deriving DecidableEq

/-- The result of binding an assembly. -/
structure BindingModel where
  classes : List BoundClass
  enums : List BoundEnum
  functions : List NativeFunction
  errors : List BindingError

namespace BindingModel

/-- The model of an assembly without declarations. -/
def empty : BindingModel := ⟨[], [], [], []⟩

/-- The function with the given symbol. -/
def function? (m : BindingModel) (symbol : String) : Option NativeFunction :=
  m.functions.find? (·.symbol = symbol)

/-- The class with the given path. -/
def class? (m : BindingModel) (path : TypePath) : Option BoundClass :=
  m.classes.find? (·.path = path)

/-- The enum with the given path. -/
def enum? (m : BindingModel) (path : TypePath) : Option BoundEnum :=
  m.enums.find? (·.path = path)

theorem mem_of_function? {m : BindingModel} {symbol : String} {f : NativeFunction}
    (h : m.function? symbol = some f) : f ∈ m.functions ∧ f.symbol = symbol :=
  ⟨List.mem_of_find?_eq_some h, by simpa using List.find?_some h⟩

theorem mem_of_class? {m : BindingModel} {path : TypePath} {c : BoundClass}
    (h : m.class? path = some c) : c ∈ m.classes ∧ c.path = path :=
  ⟨List.mem_of_find?_eq_some h, by simpa using List.find?_some h⟩

theorem mem_of_enum? {m : BindingModel} {path : TypePath} {e : BoundEnum}
    (h : m.enum? path = some e) : e ∈ m.enums ∧ e.path = path :=
  ⟨List.mem_of_find?_eq_some h, by simpa using List.find?_some h⟩

/-- The functions of a class. -/
def functionsOf (m : BindingModel) (path : TypePath) : List NativeFunction :=
  m.functions.filter (·.owner = path)

/-- The base that a class declares. -/
def base? (m : BindingModel) (path : TypePath) : Option TypePath :=
  (m.class? path).bind (·.base)

/-- Tells whether at most `n` steps from classes to their bases lead to `expected`. -/
def reaches (m : BindingModel) (expected : TypePath) : Nat → TypePath → Bool
  | 0, path => path = expected
  | n + 1, path =>
    path = expected ||
      match m.base? path with
      | some base => m.reaches expected n base
      | none => false

/-- Tells whether an object of class `actual` can stand where one of `expected` is wanted:
it is the same class or derives from it.  No chain of bases is longer than the classes. -/
def isAssignable (m : BindingModel) (actual expected : TypePath) : Bool :=
  m.reaches expected m.classes.length actual

/-- The element types of all arrays that functions pass, each once, by first use. -/
def arrayElements (m : BindingModel) : List ManagedType :=
  (m.functions.flatMap fun f => f.types.filterMap (·.element?)).eraseDups

end BindingModel

end Interop.Model
