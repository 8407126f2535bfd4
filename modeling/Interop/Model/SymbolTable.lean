/-
# Who owns which native name

A name belongs to the first that claims it, for good.  A second claim by the same owner is
granted, any other is refused and changes nothing.
-/

namespace Interop.Model

/-- Who claims a name: a key that tells owners apart, and a text that names the owner. -/
structure SymbolOwner (κ : Type) where
  key : κ
  description : String
deriving DecidableEq

/-- The names claimed so far, each with its owner, in the order of the first claims. -/
structure SymbolTable (κ : Type) where
  entries : List (String × SymbolOwner κ)

namespace SymbolTable

variable {κ : Type}

/-- The table without names. -/
def empty : SymbolTable κ := ⟨[]⟩

/-- The owner of a name. -/
def owner? (t : SymbolTable κ) (symbol : String) : Option (SymbolOwner κ) :=
  t.entries.lookup symbol

/-- The number of names. -/
def size (t : SymbolTable κ) : Nat := t.entries.length

variable [DecidableEq κ]

/-- The owner that stands in the way of a claim, if there is one. -/
def rival? (t : SymbolTable κ) (symbol : String) (claimant : SymbolOwner κ) :
    Option (SymbolOwner κ) :=
  match t.owner? symbol with
  | some owner => if owner.key = claimant.key then none else some owner
  | none => none

/-- Enters a claim, unless the name has an owner. -/
def claim (t : SymbolTable κ) (symbol : String) (claimant : SymbolOwner κ) : SymbolTable κ :=
  match t.owner? symbol with
  | some _ => t
  | none => ⟨t.entries ++ [(symbol, claimant)]⟩

/-- Enters a claim, or gives the owner that stands in its way. -/
def register (t : SymbolTable κ) (symbol : String) (claimant : SymbolOwner κ) :
    Except (SymbolOwner κ) (SymbolTable κ) :=
  match t.rival? symbol claimant with
  | some owner => .error owner
  | none => .ok (t.claim symbol claimant)

end SymbolTable

end Interop.Model
