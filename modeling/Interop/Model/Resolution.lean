/-
# Which type a name means

A name is looked for in the namespace where it is used and then in the namespaces around it,
outward; the first declaration found is the one meant, whether or not it can be passed.
-/
import Interop.Model.Basic
import Interop.Text.Similarity

namespace Interop.Model

open Source

/-- A declaration of an assembly with its full name. -/
structure Declared where
  path : TypePath
  decl : TypeDecl

namespace Declared

/-- The declaration with the given segments. -/
def find? (decls : List Declared) (segments : List String) : Option Declared :=
  decls.find? (·.path.segments = segments)

/-- The declaration that a name means in the first `depth` segments of a namespace. -/
def lookupFrom (decls : List Declared) (scope segments : List String) : Nat → Option Declared
  | 0 => find? decls segments
  | depth + 1 =>
    (find? decls (scope.take (depth + 1) ++ segments)).or (lookupFrom decls scope segments depth)

/-- The declaration that a name means in a namespace. -/
def lookup? (decls : List Declared) (scope : List String) (name : DottedName) :
    Option Declared :=
  lookupFrom decls scope name.segments scope.length

end Declared

/-- Names with a meaning of their own for managed code and none for native code. -/
def builtinNames : List String :=
  ["object", "decimal", "dynamic", "nint", "nuint", "IntPtr", "UIntPtr", "Delegate", "Action",
   "Func", "System.Object", "System.Decimal", "System.IntPtr", "System.UIntPtr",
   "System.Delegate", "System.Action", "System.Func"]

/-- The declared name that a misspelt one may have meant: simple names first, then full ones. -/
def suggestType? (decls : List Declared) (name : String) : Option String :=
  Text.suggest? name (decls.map (·.path.name) ++ decls.map (·.path.dotted))

/-- The type that a name means in a namespace, if a value of it can be passed.  Faults are put
to the account of `member`. -/
def resolveName (decls : List Declared) (model : BindingModel) (scope : List String)
    (member : String) (name : DottedName) : Except BindingFault ManagedType :=
  let unsupported (reason : UnsupportedReason) : Except BindingFault ManagedType :=
    .error (.unsupportedType member name.text reason)
  if builtinNames.contains name.text then unsupported .builtin
  else
    match Declared.lookup? decls scope name with
    | none => .error (.unknownType member name.text (suggestType? decls name.text))
    | some ⟨path, decl⟩ =>
      if decl.visibility ≠ .publicAccess then unsupported .notPublic
      else
        match decl.body with
        | .enumBody _ =>
          if (model.enum? path).isSome then .ok (.enum path) else unsupported .unbound
        | .classBody _ =>
          match model.class? path with
          | some c => if c.isStatic then unsupported .staticClass else .ok (.object path)
          | none => unsupported .unbound
        | .structBody _ => unsupported .valueType

/-- The type of a value that is written as `type` in a namespace.  There are no values of
type `void`. -/
def resolveType (decls : List Declared) (model : BindingModel) (scope : List String)
    (member : String) : TypeExpr → Except BindingFault ManagedType
  | .void => .error (.unsupportedType member "void" .voidValue)
  | .primitive p => .ok (.primitive p)
  | .string => .ok .string
  | .named name => resolveName decls model scope member name
  | .array (.array inner) =>
    .error (.unsupportedType member (TypeExpr.array (.array inner)).text .jaggedArray)
  | .array element => (resolveType decls model scope member element).map .array
  | .generic name args =>
    .error (.unsupportedType member (TypeExpr.generic name args).text .generic)
  | .nullable inner => .error (.unsupportedType member (TypeExpr.nullable inner).text .nullable)

end Interop.Model
