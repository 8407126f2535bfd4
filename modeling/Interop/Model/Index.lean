/-
# Indexes

A list whose elements are also found by a key, without going through the list.  The index keeps the
place of each element; it is filled as the list is, one element at a time, and a key that is given
again stands for the new element.

The functions of a model are found by their symbols, and its classes and enums by their paths as
they are written.
-/
import Interop.Model.Basic
import Interop.Table

namespace Interop.Model

/-- A list with the places of its elements by key. -/
structure Indexed (α : Type) where
  items : List α
  places : Table String Nat
  /-- A place is one in the list. -/
  place_lt : ∀ key i, places.get? key = some i → i < items.length

namespace Indexed

variable {α : Type}

/-- The list without elements. -/
def empty : Indexed α := ⟨[], .empty, fun _ _ h => nomatch h⟩

/-- Adds an element behind the others under a key. -/
def push (t : Indexed α) (key : String) (x : α) : Indexed α where
  items := t.items ++ [x]
  places := t.places.set key t.items.length
  place_lt l i h := by
    rw [Table.get?_set] at h
    rw [List.length_append, List.length_singleton]
    split at h
    · rw [← Option.some.inj h]
      exact Nat.lt_succ_self _
    · exact Nat.lt_succ_of_lt (t.place_lt l i h)

/-- The element of a key. -/
def get? (t : Indexed α) (key : String) : Option α := (t.places.get? key).bind (t.items[·]?)

/-- A list with each element under its key. -/
def ofList (key : α → String) (xs : List α) : Indexed α :=
  xs.foldl (fun t x => t.push (key x) x) empty

end Indexed

namespace BindingModel

/-- The functions by symbol. -/
def functionIndex (m : BindingModel) : Indexed NativeFunction := .ofList (·.symbol) m.functions

/-- The classes by path. -/
def classIndex (m : BindingModel) : Indexed BoundClass := .ofList (·.path.dotted) m.classes

/-- The enums by path. -/
def enumIndex (m : BindingModel) : Indexed BoundEnum := .ofList (·.path.dotted) m.enums

/-- The function that the index has for a symbol. -/
def indexedFunction? (m : BindingModel) (symbol : String) : Option NativeFunction :=
  m.functionIndex.get? symbol

/-- The class that the index has for a path.  Only the text of the path counts. -/
def indexedClass? (m : BindingModel) (path : TypePath) : Option BoundClass :=
  m.classIndex.get? path.dotted

/-- The enum that the index has for a path.  Only the text of the path counts. -/
def indexedEnum? (m : BindingModel) (path : TypePath) : Option BoundEnum :=
  m.enumIndex.get? path.dotted

end BindingModel

end Interop.Model
