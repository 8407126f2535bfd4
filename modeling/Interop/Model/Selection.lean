/-
# Selections of a model

The part of a model that serves some of its types: their functions, and every type that
those functions mention, so that the selection can stand alone.
-/
import Interop.Model.Basic

namespace Interop.Model

/-- The functions of the types that `keep` accepts, with the types that it accepts or that
those functions mention.  Errors are not carried over. -/
def BindingModel.select (m : BindingModel) (keep : TypePath → Bool) : BindingModel :=
  let functions := m.functions.filter fun f => keep f.owner
  let mentioned := functions.flatMap (·.mentioned)
  let wanted (path : TypePath) := keep path || mentioned.contains path
  { classes := m.classes.filter fun c => wanted c.path
    enums := m.enums.filter fun e => wanted e.path
    functions := functions
    errors := [] }

end Interop.Model
