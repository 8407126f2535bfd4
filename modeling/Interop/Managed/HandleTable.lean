/-
# Handles

The objects that native code has received, each with its handle.  An object keeps its handle
forever, and a handle is never given to another object.
-/
import Interop.Managed.Value
import Interop.Native.Array

namespace Interop.Managed

open Native

/-- The objects with handles: the object at place `i` has the handle `i + 1`.  The handle of an
object is found by the object itself. -/
structure HandleTable where
  slots : List ObjectRef
  byObject : Table ObjectRef Handle

namespace HandleTable

/-- No handles. -/
def empty : HandleTable := ⟨[], .empty⟩

/-- The number of handles. -/
def size (t : HandleTable) : Nat := t.slots.length

/-- The handle of the object at a place. -/
def handleAt (i : Nat) : Handle := ⟨i + 1, Nat.succ_ne_zero i⟩

/-- The handle of an object, a new one if it has none yet. -/
def root (t : HandleTable) (o : ObjectRef) : Handle × HandleTable :=
  match t.byObject.get? o with
  | some h => (h, t)
  | none =>
    let h := handleAt t.slots.length
    (h, ⟨t.slots ++ [o], t.byObject.set o h⟩)

/-- The object of a handle. -/
def resolve? (t : HandleTable) (h : Handle) : Option ObjectRef := t.slots[h.raw - 1]?

end HandleTable

end Interop.Managed
