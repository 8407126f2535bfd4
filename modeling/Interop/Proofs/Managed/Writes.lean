/-
# What managed code writes to

Code can write to fields of objects, to static fields of classes and to elements of arrays.  To
which of these places a run writes is read off its steps (`Program.writes`); what it does not write
to is the same when the run ends (`keeps_run`).  Nothing is said about an array that is still to be
made.
-/
import Interop.Managed.Program
import Mathlib.Tactic.Common

namespace Interop.Managed

open Model

/-- A place that code can write to: a field of an object, a static field of a class, or the elements
of an array. -/
inductive Place
  | field (object : Nat) (name : String)
  | static (type : TypePath) (name : String)
  | elements (array : Nat)
deriving DecidableEq

namespace Place

/-- What a place holds: the value of a field that was ever set, or the elements of an array. -/
def content : Place → Heap → Statics → Option (List ManagedValue)
  | field i name, heap, _ => ((heap.objects.getD i .empty).get? name).map ([·])
  | static type name, _, statics => (statics.get? (type, name)).map ([·])
  | elements i, heap, _ => heap.arrays[i]?

/-- Fields are there before they are set, elements are not. -/
def Stands : Place → Heap → Prop
  | field _ _, _ | static _ _, _ => True
  | elements i, heap => i < heap.arrays.length

/-- From one state of the heap and the static fields to another, a place that was there holds the
same. -/
structure Keeps (place : Place) (heap : Heap) (statics : Statics) (heap' : Heap)
    (statics' : Statics) : Prop where
  content : place.Stands heap → place.content heap' statics' = place.content heap statics

namespace Keeps

variable {place : Place} {heap : Heap} {statics : Statics}

lemma refl (place : Place) (heap : Heap) (statics : Statics) :
    place.Keeps heap statics heap statics :=
  ⟨fun _ => rfl⟩

lemma trans {heap' heap'' : Heap} {statics' statics'' : Statics}
    (h : place.Keeps heap statics heap' statics')
    (h' : place.Keeps heap' statics' heap'' statics'') :
    place.Keeps heap statics heap'' statics'' := by
  refine ⟨fun hstands => ?_⟩
  have hsame := h.content hstands
  refine (h'.content ?_).trans hsame
  cases place with
  | field | static => trivial
  | elements i =>
    -- an array that holds what it held is still there
    rw [Place.content, Place.content, List.getElem?_eq_getElem hstands] at hsame
    exact (List.getElem?_eq_some_iff.mp hsame).1

lemma newObject (place : Place) (heap : Heap) (statics : Statics) (type : TypePath) :
    place.Keeps heap statics (heap.newObject type).2 statics := by
  refine ⟨fun _ => ?_⟩
  cases place with
  | static | elements => rfl
  | field i name =>
    rw [Place.content, Place.content, Heap.newObject, List.getD_eq_getElem?_getD,
      List.getD_eq_getElem?_getD, List.getElem?_append]
    split
    · rfl
    · -- a new object has no fields, as if it were not there
      rename_i hge
      rw [List.getElem?_eq_none (Nat.le_of_not_lt hge), List.getElem?_singleton]
      split <;> rfl

lemma newArray (place : Place) (heap : Heap) (statics : Statics) (items : List ManagedValue) :
    place.Keeps heap statics (heap.newArray items).2 statics := by
  refine ⟨fun hstands => ?_⟩
  cases place with
  | field | static => rfl
  | elements i => exact List.getElem?_append_left hstands

lemma setField {o : ObjectRef} {name : String} (h : place ≠ .field o.index name)
    (v : ManagedValue) : place.Keeps heap statics (heap.setField o name v) statics := by
  refine ⟨fun _ => ?_⟩
  cases place with
  | static | elements => rfl
  | field i other =>
    rw [Place.content, Place.content, Heap.setField, List.getD_eq_getElem?_getD,
      List.getD_eq_getElem?_getD, List.getElem?_set]
    split
    · rename_i hindex
      subst hindex
      have hname : other ≠ name := fun hname => h (hname ▸ rfl)
      split
      · rename_i hlt
        rw [Option.getD_some, Table.get?_set, if_neg hname, Heap.fields,
          List.getD_eq_getElem?_getD]
      · rename_i hge
        rw [List.getElem?_eq_none (Nat.le_of_not_lt hge)]
    · rfl

lemma setItem {a : ArrayRef} (h : place ≠ .elements a.index) (i : Nat) (v : ManagedValue) :
    place.Keeps heap statics (heap.setItem a i v) statics := by
  refine ⟨fun _ => ?_⟩
  cases place with
  | field | static => rfl
  | elements j => exact List.getElem?_set_ne fun hindex => h (congrArg elements hindex.symm)

lemma setStatic {type : TypePath} {name : String} (h : place ≠ .static type name)
    (v : ManagedValue) : place.Keeps heap statics heap (statics.set (type, name) v) := by
  refine ⟨fun _ => ?_⟩
  cases place with
  | field | elements => rfl
  | static type' name' =>
    rw [Place.content, Place.content, Table.get?_set, if_neg]
    rintro heq
    cases heq
    exact h rfl

end Keeps

/-- A field that is set holds the value, if its object is there. -/
lemma content_setField {heap : Heap} {o : ObjectRef} (h : o.index < heap.objects.length)
    (statics : Statics) (name : String) (v : ManagedValue) :
    (field o.index name).content (heap.setField o name v) statics = some [v] := by
  rw [content, Heap.setField, List.getD_eq_getElem?_getD, List.getElem?_set_self h,
    Option.getD_some, Table.get?_set, if_pos rfl]
  rfl

lemma content_setStatic (heap : Heap) (statics : Statics) (type : TypePath) (name : String)
    (v : ManagedValue) :
    (static type name).content heap (statics.set (type, name) v) = some [v] := by
  rw [content, Table.get?_set, if_pos rfl]
  rfl

end Place

namespace Program

/-- The places that code writes to when it starts in a state of a call, in the order in which it
does. -/
def writes : Program → Call → List Place
  | done _, _ => []
  | observe next, c => (next c).writes c
  | setArgument i v next, c =>
    if i < c.arguments.length then next.writes { c with arguments := c.arguments.set i v } else []
  | setStatic name v next, c =>
    .static c.function.owner name ::
      next.writes { c with statics := c.statics.set (c.function.owner, name) v }
  | setField o name v next, c =>
    .field o.index name :: next.writes { c with heap := c.heap.setField o name v }
  | setItem a i v next, c =>
    .elements a.index :: next.writes { c with heap := c.heap.setItem a i v }
  | newObject type next, c =>
    let (o, heap) := c.heap.newObject type
    (next o).writes { c with heap }
  | newArray items next, c =>
    let (a, heap) := c.heap.newArray items
    (next a).writes { c with heap }

/-- What code does not write to is the same when it ends. -/
lemma keeps_run {place : Place} (p : Program) :
    ∀ c, place ∉ p.writes c →
      place.Keeps c.heap c.statics (p.run c).2.heap (p.run c).2.statics := by
  induction p with
  | done result => exact fun c _ => .refl ..
  | observe next ih => exact fun c h => ih c c h
  | setArgument i v next ih =>
    intro c h
    rw [writes] at h
    rw [run]
    split
    · rename_i hi
      rw [if_pos hi] at h
      exact ih _ h
    · exact .refl ..
  | setStatic name v next ih =>
    intro c h
    obtain ⟨hne, hrest⟩ := not_or.mp (mt List.mem_cons.mpr h)
    exact (Place.Keeps.setStatic hne v).trans (ih _ hrest)
  | setField o name v next ih =>
    intro c h
    obtain ⟨hne, hrest⟩ := not_or.mp (mt List.mem_cons.mpr h)
    exact (Place.Keeps.setField hne v).trans (ih _ hrest)
  | setItem a i v next ih =>
    intro c h
    obtain ⟨hne, hrest⟩ := not_or.mp (mt List.mem_cons.mpr h)
    exact (Place.Keeps.setItem hne i v).trans (ih _ hrest)
  | newObject type next ih =>
    exact fun c h => (Place.Keeps.newObject place c.heap c.statics type).trans (ih _ _ h)
  | newArray items next ih =>
    exact fun c h => (Place.Keeps.newArray place c.heap c.statics items).trans (ih _ _ h)

end Program

end Interop.Managed
