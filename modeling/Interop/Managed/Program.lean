/-
# Managed code

The code of a member, as native code can know it: it looks at the state of its call, changes
it step by step, and in the end returns a value or fails.  What it does next may depend in any
way on what it saw.  It cannot change the class of an object or the handles.
-/
import Interop.Managed.Value
import Interop.Model.Basic

namespace Interop.Managed

open Model

/-- Why managed code failed. -/
inductive ManagedFailure
  | exception (text : String)
  | argumentIndex (index : Nat)
  | argumentType (index : Nat) (expected : String)
  | noInstance
deriving DecidableEq

/-- The wording of a failure. -/
def ManagedFailure.message : ManagedFailure → String
  | exception text => text
  | argumentIndex index => s!"argument {index} does not exist"
  | argumentType index expected => s!"argument {index} is not {expected}"
  | noInstance => "instance member called without an instance"

/-- The static fields, by class and name. -/
abbrev Statics := Table (TypePath × String) ManagedValue

/-- The state of a call.  The receiver is not one of the arguments. -/
structure Call where
  function : NativeFunction
  receiver : Option ObjectRef
  arguments : List ManagedValue
  statics : Statics
  heap : Heap

/-- The static field of the class of the called function. -/
def Call.static? (c : Call) (name : String) : Option ManagedValue :=
  c.statics.get? (c.function.owner, name)

/-- Managed code. -/
inductive Program
  | done (result : Except ManagedFailure ManagedValue)
  /-- Looks at the state of the call. -/
  | observe (next : Call → Program)
  /-- Replaces an argument; there must be one at that place. -/
  | setArgument (i : Nat) (v : ManagedValue) (next : Program)
  /-- Sets a static field of the class of the called function. -/
  | setStatic (name : String) (v : ManagedValue) (next : Program)
  | setField (o : ObjectRef) (name : String) (v : ManagedValue) (next : Program)
  | setItem (a : ArrayRef) (i : Nat) (v : ManagedValue) (next : Program)
  | newObject (type : TypePath) (next : ObjectRef → Program)
  | newArray (items : List ManagedValue) (next : ArrayRef → Program)

namespace Program

/-- Runs managed code.  The changes made before a failure stay. -/
def run : Program → Call → Except ManagedFailure ManagedValue × Call
  | done result, c => (result, c)
  | observe next, c => (next c).run c
  | setArgument i v next, c =>
    if i < c.arguments.length then next.run { c with arguments := c.arguments.set i v }
    else (.error (.argumentIndex i), c)
  | setStatic name v next, c =>
    next.run { c with statics := c.statics.set (c.function.owner, name) v }
  | setField o name v next, c => next.run { c with heap := c.heap.setField o name v }
  | setItem a i v next, c => next.run { c with heap := c.heap.setItem a i v }
  | newObject type next, c =>
    let (o, heap) := c.heap.newObject type
    (next o).run { c with heap }
  | newArray items next, c =>
    let (a, heap) := c.heap.newArray items
    (next a).run { c with heap }

end Program

end Interop.Managed
