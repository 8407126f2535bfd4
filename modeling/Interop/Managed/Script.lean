/-
# Scripts

Managed code written as data: statements over the arguments, the receiver, the static fields
and the objects of a call.
-/
import Interop.Managed.Program

namespace Interop.Managed

open Model

/-- A form in which a script can ask for an argument. -/
inductive ArgumentForm
  | scalar (p : Primitive)
  | string | enum | array | object
  | any
deriving DecidableEq

namespace ArgumentForm

/-- The text by which a failure names a form. -/
def text : ArgumentForm → String
  | scalar p => p.keyword
  | string => "a string"
  | enum => "an enum"
  | array => "an array"
  | object => "an object"
  | any => "a value"

/-- A value in a form, if it has that form.  A unit of `char` is also a `ushort`. -/
def extract? : ArgumentForm → ManagedValue → Option ManagedValue
  | scalar .uint16, .scalar (.integer .char v _) =>
    (Scalar.ofInt? .uint16 v).map ManagedValue.scalar
  | scalar p, .scalar s => if s.type = p then some (.scalar s) else none
  | string, .string t => some (.string t)
  | enum, .enum e => some (.enum e)
  | array, .array a => some (.array a)
  | object, .object o => some (.object o)
  | any, v => some v
  | _, _ => none

end ArgumentForm

/-- An expression of a script. -/
inductive Expr
  /-- A value without references. -/
  | null
  | scalar (s : Scalar)
  | string (t : String)
  | enum (e : EnumValue)
  /-- A new array. -/
  | array (items : List Expr)
  /-- A new object of a class. -/
  | object (type : TypePath)
  /-- A new object of the class of the called function. -/
  | newInstance
  | argument (i : Nat)
  | argumentAs (form : ArgumentForm) (i : Nat)
  /-- An `int` argument plus a number, modulo 2 ^ 32. -/
  | add (i : Nat) (n : Int)
  /-- The bits of two enum arguments together. -/
  | bitOr (i j : Nat)
  | receiver
  /-- A field of the receiver. -/
  | field (name : String)
  | static (name : String)
  /-- The symbol of the called function. -/
  | symbol
  | display (e : Expr)
  | typeName (e : Expr)
  | equal (e f : Expr)
  | item (e : Expr) (i : Nat)
  | length (e : Expr)
  | fieldOf (e : Expr) (name : String)

/-- A statement of a script. -/
inductive Statement
  | setArgument (i : Nat) (e : Expr)
  /-- Sets a field of the receiver. -/
  | setField (name : String) (e : Expr)
  | setStatic (name : String) (e : Expr)
  /-- Sets an element of an array; the value comes first. -/
  | setItem (array : Expr) (i : Nat) (e : Expr)
  /-- Sets a field of an object; the value comes first. -/
  | setFieldOf (object : Expr) (name : String) (e : Expr)
  | throw (text : String)
  | return (e : Expr)
  /-- Calls back through the entry point and returns the status. -/
  | reenter

namespace Expr

/-- An `int`. -/
def int (n : Int) : ManagedValue :=
  .scalar (.integer .int32 (Primitive.int32.wrap n)
    (Primitive.holds_wrap (by decide) (by decide) (by decide) n))

/-- Ends the call with a failure. -/
def failed (f : ManagedFailure) : Program := .done (.error f)

/-- Goes on with an argument in a form. -/
def withArgument (form : ArgumentForm) (i : Nat) (next : ManagedValue → Program) : Program :=
  .observe fun c =>
    match c.arguments[i]? with
    | none => failed (.argumentIndex i)
    | some v =>
      match form.extract? v with
      | some w => next w
      | none => failed (.argumentType i form.text)

/-- Goes on with the receiver. -/
def withReceiver (next : ObjectRef → Program) : Program :=
  .observe fun c =>
    match c.receiver with
    | some o => next o
    | none => failed .noInstance

mutual

/-- Goes on with the value of an expression. -/
def eval : Expr → (ManagedValue → Program) → Program
  | null, next => next .null
  | scalar s, next => next (.scalar s)
  | string t, next => next (.string t)
  | enum e, next => next (.enum e)
  | array items, next => evalAll items fun vs => .newArray vs fun a => next (.array a)
  | object type, next => .newObject type fun o => next (.object o)
  | newInstance, next =>
    .observe fun c => .newObject c.function.owner fun o => next (.object o)
  | argument i, next => withArgument .any i next
  | argumentAs form i, next => withArgument form i next
  | add i n, next =>
    withArgument (.scalar .int32) i fun v =>
      match v with
      | .scalar (.integer _ m _) => next (int (m + n))
      | _ => next .null
  | bitOr i j, next =>
    withArgument .enum i fun v => withArgument .enum j fun w =>
      match v, w with
      | .enum a, .enum b => next (.enum ⟨a.type, a.bits ||| b.bits⟩)
      | _, _ => next .null
  | receiver, next => withReceiver fun o => next (.object o)
  | field name, next =>
    withReceiver fun o => .observe fun c => next ((c.heap.field? o name).getD .null)
  | static name, next => .observe fun c => next ((c.static? name).getD .null)
  | symbol, next => .observe fun c => next (.string c.function.symbol)
  | display e, next => e.eval fun v => .observe fun c => next (.string (c.heap.display v))
  | typeName e, next => e.eval fun v => next (.string v.typeName)
  | equal e f, next =>
    e.eval fun v => f.eval fun w => .observe fun c => next (.scalar (.bool (c.heap.eqv v w)))
  | item e i, next =>
    e.eval fun v =>
      match v with
      | .array a => .observe fun c => next ((c.heap.items a).getD i .null)
      | _ => next .null
  | length e, next =>
    e.eval fun v =>
      match v with
      | .array a => .observe fun c => next (int (c.heap.items a).length)
      | .string t => next (int (Text.utf8 t).length)
      | _ => next .null
  | fieldOf e name, next =>
    e.eval fun v =>
      match v with
      | .object o => .observe fun c => next ((c.heap.field? o name).getD .null)
      | _ => next .null

/-- Goes on with the values of expressions, computed from left to right. -/
def evalAll : List Expr → (List ManagedValue → Program) → Program
  | [], next => next []
  | e :: es, next => e.eval fun v => evalAll es fun vs => next (v :: vs)

end

/-- The value of an expression that asks for nothing of a call, made on a heap. -/
def build (e : Expr) (h : Heap) : ManagedValue × Heap :=
  let f : NativeFunction :=
    ⟨"", ⟨[], ""⟩, "", .method, true, 0, [], .void, ⟨0, 0⟩⟩
  match (e.eval fun v => .done (.ok v)).run ⟨f, none, [], .empty, h⟩ with
  | (.ok v, c) => (v, c.heap)
  | (.error _, c) => (.null, c.heap)

end Expr

/-- The status that a call from inside a call gets: the managed side is busy, as if there were
none. -/
def busyStatus : Int := 1

/-- The code that runs statements in order.  Without a return it returns null. -/
def Program.ofScript : List Statement → Program
  | [] => .done (.ok .null)
  | .setArgument i e :: rest => e.eval fun v => .setArgument i v (ofScript rest)
  | .setField name e :: rest =>
    e.eval fun v => Expr.withReceiver fun o => .setField o name v (ofScript rest)
  | .setStatic name e :: rest => e.eval fun v => .setStatic name v (ofScript rest)
  | .setItem array i e :: rest =>
    e.eval fun v => array.eval fun w =>
      match w with
      | .array a => .setItem a i v (ofScript rest)
      | _ => ofScript rest
  | .setFieldOf object name e :: rest =>
    e.eval fun v => object.eval fun w =>
      match w with
      | .object o => .setField o name v (ofScript rest)
      | _ => ofScript rest
  | .throw text :: _ => .done (.error (.exception text))
  | .return e :: _ => e.eval fun v => .done (.ok v)
  | .reenter :: _ => .done (.ok (Expr.int busyStatus))

end Interop.Managed
