/-
# Listings of native symbols

A row for each function of a model, as text in columns or as JSON.
-/
import Interop.Model.Basic
import Interop.Text.Json

namespace Interop.Model

open Text

/-- The word for a kind of function. -/
def FunctionKind.name : FunctionKind → String
  | constructor => "constructor"
  | method => "method"
  | getter _ => "getter"
  | setter _ => "setter"

/-- A row of a listing. -/
structure SymbolRow where
  symbol : String
  owner : String
  kind : String
  isStatic : Bool
  signature : String
deriving DecidableEq

namespace SymbolRow

/-- The row of a function. -/
def ofFunction (f : NativeFunction) : SymbolRow :=
  ⟨f.symbol, f.owner.dotted, f.kind.name, f.isStatic, f.signature⟩

/-- The row as a line, with the symbol filled up to a width. -/
def line (width : Nat) (r : SymbolRow) : String :=
  let fill := String.ofList (List.replicate (width - r.symbol.length) ' ')
  let marker := if r.isStatic then "static " else ""
  s!"{r.symbol}{fill}  {marker}{r.owner}::{r.signature}"

/-- The row as a JSON object. -/
def toJson (r : SymbolRow) : Json :=
  .object [("symbol", .string r.symbol), ("owner", .string r.owner), ("kind", .string r.kind),
    ("is_static", .bool r.isStatic), ("signature", .string r.signature)]

end SymbolRow

/-- The rows of a model, in the order of its functions. -/
def BindingModel.rows (m : BindingModel) : List SymbolRow :=
  m.functions.map SymbolRow.ofFunction

/-- The lines of a listing; the longest symbol gives the width of its column. -/
def listing (rows : List SymbolRow) : List String :=
  let width := (rows.map (·.symbol.length)).foldl max 0
  rows.map (·.line width)

/-- A listing as JSON. -/
def listingJson (rows : List SymbolRow) : String :=
  (Json.array (rows.map SymbolRow.toJson)).pretty

end Interop.Model
