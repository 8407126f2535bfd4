/-
# Binding an assembly

The declarations of an assembly are bound in four passes, each in source order: enums,
classes, bases of classes, and members of classes.  A pass that cannot bind something reports
it and goes on, so an error costs only the declaration or member that it concerns.  A fault that
ends the program is put down like the others, and then there is no model.

Main definitions:
* `BindingModel.ofAssembly` is what the declarations of an assembly come to, fault by fault;
* `BindingModel.bind` is the model of an assembly, unless the program ends on the way to it.
-/
import Interop.Model.Resolution

namespace Interop.Model

open Source

/-! ### Declarations and their names -/

mutual

/-- The types that an item declares, with their full names. -/
def Declared.ofItem (scope : List String) : Item → List Declared
  | .inNamespace path items _ => Declared.ofItems (scope ++ path) items
  | .declared decl => [⟨⟨scope, decl.name⟩, decl⟩]

/-- The types that a list of items declares, in source order. -/
def Declared.ofItems (scope : List String) : List Item → List Declared
  | [] => []
  | item :: items => Declared.ofItem scope item ++ Declared.ofItems scope items

end

/-- The model under construction, with the native names given out so far. -/
structure Draft where
  model : BindingModel
  symbols : SymbolTable Claimant

namespace Draft

/-- Nothing bound yet. -/
def empty : Draft := ⟨.empty, .empty⟩

/-- Adds an error. -/
def report (d : Draft) (fault : BindingFault) (span : Span) : Draft :=
  { d with model.errors := d.model.errors ++ [⟨fault, span⟩] }

/-- Claims a name for a type or an enum item, and tells whether it was granted. -/
def claim (d : Draft) (symbol : String) (claimant : Claimant) (span : Span) : Draft × Bool :=
  match nameFault? symbol with
  | some fault => (d.report (.invalidIdentifier symbol claimant.description fault) span, false)
  | none =>
    match d.symbols.register symbol claimant.toOwner with
    | .ok symbols => ({ d with symbols }, true)
    | .error owner => (d.report (.nameCollision symbol claimant owner.key) span, false)

end Draft

/-- Keeps the first declaration of each name and reports the others. -/
def Declared.distinct (decls : List Declared) : List Declared × Draft :=
  let keep : List Declared × Draft → Declared → List Declared × Draft := fun (kept, d) new =>
    if (Declared.find? kept new.path.segments).isSome then
      (kept, d.report (.duplicateType new.path) new.decl.span)
    else (kept ++ [new], d)
  decls.foldl keep ([], .empty)

/-! ### Enums -/

/-- The type of the items of an enum: an integral type, by default the signed one of 32
bits. -/
def itemType (body : EnumBody) : Except EnumFault Primitive :=
  match body.underlying with
  | none => .ok .int32
  | some (.primitive p) => if p.isIntegral then .ok p else .error (.notIntegral p.keyword)
  | some other => .error (.notIntegral other.text)

/-- Gives each item its value, up to the first fault.  `values` are those of the items before,
and `next` is the value of an item without an expression. -/
def itemValues (underlying : Primitive) (values : List (String × Int)) (next : Int) :
    List EnumItem → List (EnumItem × Int) × Option (EnumFault × Span)
  | [] => ([], none)
  | item :: items =>
    let value :=
      match item.value with
      | some e => e.value values
      | none => .ok next
    match value with
    | .error fault => ([], some (.item item.name fault, item.span))
    | .ok v =>
      let (lo, hi) := underlying.integerRange?.getD (-twoPow 127, twoPow 127 - 1)
      if v < lo ∨ hi < v then ([], some (.outOfRange item.name v underlying, item.span))
      else if (values.lookup item.name).isSome then
        ([], some (.duplicateItem item.name, item.span))
      else
        let (valued, fault) := itemValues underlying ((item.name, v) :: values) (v + 1) items
        ((item, v) :: valued, fault)

/-- Claims the names of enum items; an item whose name is refused is left out. -/
def Draft.claimItems (d : Draft) (path : TypePath) :
    List (EnumItem × Int) → Draft × List BoundEnumItem
  | [] => (d, [])
  | (item, value) :: valued =>
    let symbol := path.itemSymbol item.name
    let (d, granted) := d.claim symbol (.enumItem path item.name) item.span
    let (d, bound) := claimItems d path valued
    (d, if granted then ⟨item.name, symbol, value⟩ :: bound else bound)

/-- Binds a declaration if it is a public enum. -/
def Draft.bindEnum (d : Draft) (new : Declared) : Draft :=
  let { path, decl } := new
  match decl.body with
  | .enumBody body =>
    if decl.visibility ≠ .publicAccess then d
    else
      match itemType body with
      | .error fault => d.report (.invalidEnum path fault) decl.span
      | .ok underlying =>
        let (d, granted) := d.claim path.symbol (.enumType path) decl.span
        if granted then
          let (valued, fault) := itemValues underlying [] 0 body.items
          let (d, items) := d.claimItems path valued
          match fault with
          | some (fault, span) => d.report (.invalidEnum path fault) span
          | none =>
            let bound : BoundEnum :=
              ⟨path, path.symbol, underlying, decl.hasAttribute "Flags", items, decl.span⟩
            { d with model.enums := d.model.enums ++ [bound] }
        else d
  | _ => d

/-! ### Classes and their bases -/

/-- Binds a declaration if it is a public class.  A public struct is reported. -/
def Draft.declareClass (d : Draft) (new : Declared) : Draft :=
  let { path, decl } := new
  if decl.visibility ≠ .publicAccess then d
  else
    match decl.body with
    | .enumBody _ => d
    | .structBody _ =>
      d.report (.unsupportedType path.dotted path.dotted .structHandle) decl.span
    | .classBody _ =>
      let (d, granted) := d.claim path.symbol (.classType path) decl.span
      if granted then
        let bound : BoundClass := ⟨path, path.symbol, none, decl.isStatic, decl.span⟩
        { d with model.classes := d.model.classes ++ [bound] }
      else d

/-- The base that a bound class may take, given the name that it declares. -/
def BindingModel.baseFor (m : BindingModel) (decls : List Declared) (path : TypePath)
    (decl : TypeDecl) (name : DottedName) : Except BindingFault TypePath :=
  if decl.isStatic then .error (.invalidBase path name.text .staticDerived)
  else
    match Declared.lookup? decls path.scope name with
    | none => .error (.invalidBase path name.text .undeclared)
    | some found =>
      let base := found.path
      match found.decl.body with
      | .classBody _ =>
        match m.class? base with
        | none => .error (.invalidBase path base.dotted .notExposed)
        | some c =>
          if c.isStatic then .error (.invalidBase path base.dotted .staticBase)
          else if m.isAssignable base path then .error (.invalidBase path base.dotted .circular)
          else .ok base
      | _ => .error (.invalidBase path base.dotted .notClass)

/-- Gives a class its base. -/
def BindingModel.setBase (m : BindingModel) (path base : TypePath) : BindingModel :=
  { m with classes := m.classes.map fun c => if c.path = path then { c with base } else c }

/-- Resolves the base of a declaration if it is a bound class that names one. -/
def Draft.resolveBase (decls : List Declared) (d : Draft) (new : Declared) : Draft :=
  let { path, decl } := new
  match decl.body with
  | .classBody ⟨some name, _⟩ =>
    if (d.model.class? path).isSome then
      match d.model.baseFor decls path decl name with
      | .ok base => { d with model := d.model.setBase path base }
      | .error fault => d.report fault name.span
    else d
  | _ => d

/-! ### Members -/

/-- What a member takes: a parameter as it is declared, or the value of a property. -/
structure CandidateParam where
  name : String
  type : TypeExpr
  direction : Direction
  span : Span

/-- What a member gives back. -/
inductive CandidateResult
  /-- An object of the class itself. -/
  | owner
  | nothing
  | value (type : TypeExpr)

/-- An exported member before its types are resolved. -/
structure Candidate where
  /-- The name in the symbol. -/
  nativeMember : String
  /-- The name in signatures. -/
  member : String
  kind : FunctionKind
  isStatic : Bool
  params : List CandidateParam
  result : CandidateResult
  span : Span

/-- The direction that a modifier stands for. -/
def Direction.ofModifier : ParamModifier → Direction
  | .unmarked | .inMark => .input
  | .outMark => .out
  | .refMark => .ref

namespace Candidate

/-- A declared parameter. -/
def paramOf (p : Parameter) : CandidateParam := ⟨p.name, p.type, .ofModifier p.modifier, p.span⟩

/-- A constructor. -/
def ofConstructor (params : List Parameter) (span : Span) : Candidate :=
  ⟨"new", ".ctor", .constructor, false, params.map paramOf, .owner, span⟩

/-- The accessor of a property, if it is public. -/
def ofAccessor? (accessor : Option Accessor) (make : Span → Candidate) (span : Span) :
    List Candidate :=
  match accessor with
  | some a => if a.visibility = .publicAccess then [make (span.merge a.span)] else []
  | none => []

/-- The functions that a member is exported as: none unless it is public, a getter before a
setter. -/
def ofMember (m : Member) : List Candidate :=
  if m.visibility ≠ .publicAccess then []
  else
    match m.kind with
    | .constructor params => if m.isStatic then [] else [ofConstructor params m.span]
    | .method params returns =>
      [⟨m.name, m.name, .method, m.isStatic, params.map paramOf, .value returns, m.span⟩]
    | .property type getter setter =>
      let get := "get_" ++ m.name
      let set := "set_" ++ m.name
      ofAccessor? getter
          (fun span => ⟨get, get, .getter m.name, m.isStatic, [], .value type, span⟩) m.span ++
        ofAccessor? setter
          (fun span => ⟨set, set, .setter m.name, m.isStatic, [⟨"value", type, .input, span⟩],
            .nothing, span⟩) m.span

/-- Tells whether a member is a constructor of objects, public or not. -/
def isInstanceConstructor (m : Member) : Bool :=
  match m.kind with
  | .constructor _ => !m.isStatic
  | _ => false

/-- The exported members of a class.  A class that declares no constructor has one without
parameters, unless it is static. -/
def ofClass (decl : TypeDecl) (body : ClassBody) : List Candidate :=
  let implicit :=
    if body.members.any isInstanceConstructor || decl.isStatic then []
    else [ofConstructor [] decl.span]
  implicit ++ body.members.flatMap ofMember

/-- Numbers the candidates that share a native name.  `before` are the native names of the
candidates before these.  Ordinals do not depend on types, so a member that fails to bind
never renames another. -/
def withOrdinals (before : List String) : List Candidate → List (Candidate × Nat)
  | [] => []
  | c :: cs => (c, before.count c.nativeMember) :: withOrdinals (before ++ [c.nativeMember]) cs

end Candidate

/-- The bound parameter, or the fault of its type. -/
def bindParam (decls : List Declared) (model : BindingModel) (owner : TypePath)
    (label : String) (p : CandidateParam) : Except BindingError BoundParam :=
  match resolveType decls model owner.scope label p.type with
  | .error fault => .error ⟨fault, p.span⟩
  | .ok type =>
    if p.direction.isByRef && type.element?.isSome then
      .error ⟨.unsupportedType label p.type.text .byRefArray, p.span⟩
    else .ok ⟨p.name, type, p.direction⟩

/-- The return type of a member of `owner`. -/
def bindResult (decls : List Declared) (model : BindingModel) (owner : TypePath)
    (label : String) : CandidateResult → Except BindingFault ManagedType
  | .owner => .ok (.object owner)
  | .nothing | .value .void => .ok .void
  | .value type => resolveType decls model owner.scope label type

/-- The native function that a candidate is bound as, or why it has none. -/
def bindFunction (decls : List Declared) (model : BindingModel) (owner : TypePath)
    (c : Candidate) (ordinal : Nat) : Except BindingError NativeFunction :=
  let label := memberLabel owner c.member
  if (model.class? owner).any (·.isStatic) && !c.isStatic then
    .error ⟨.staticClassMember label owner, c.span⟩
  else do
    let params ← c.params.mapM (bindParam decls model owner label)
    let returns ← (bindResult decls model owner label c.result).mapError (⟨·, c.span⟩)
    let symbol := owner.memberSymbol c.nativeMember ordinal
    match nameFault? symbol with
    | some fault => .error ⟨.invalidIdentifier symbol label fault, c.span⟩
    | none =>
      return ⟨symbol, owner, c.member, c.kind, c.isStatic, ordinal, params, returns, c.span⟩

/-- The names that a function needs: its symbol, and the type of each array it passes. -/
def NativeFunction.claims (f : NativeFunction) : List (String × Claimant) :=
  (f.symbol, .function f.owner f.member f.ordinal) ::
    (f.types.filterMap (·.element?)).map fun e => (e.arraySymbol, .arrayType e)

/-- Adds a function if all names that it needs are free for it; otherwise none is taken. -/
def Draft.addFunction (d : Draft) (f : NativeFunction) : Draft :=
  let conflict? := f.claims.findSome? fun (symbol, claimant) =>
    (d.symbols.rival? symbol claimant.toOwner).map (symbol, ·.key)
  match conflict? with
  | some (symbol, existing) =>
    d.report (.nameCollision symbol (.function f.owner f.member f.ordinal) existing) f.span
  | none =>
    { model := { d.model with functions := d.model.functions ++ [f] }
      symbols := f.claims.foldl (fun t (symbol, claimant) => t.claim symbol claimant.toOwner)
        d.symbols }

/-- Binds one member of a class. -/
def Draft.bindMember (decls : List Declared) (owner : TypePath) (d : Draft)
    (c : Candidate × Nat) : Draft :=
  match bindFunction decls d.model owner c.1 c.2 with
  | .ok f => d.addFunction f
  | .error e => d.report e.fault e.span

/-- Binds the members of a declaration if it is a bound class. -/
def Draft.bindMembers (decls : List Declared) (d : Draft) (new : Declared) : Draft :=
  let { path, decl } := new
  match decl.body with
  | .classBody body =>
    if (d.model.class? path).isSome then
      (Candidate.withOrdinals [] (Candidate.ofClass decl body)).foldl (bindMember decls path) d
    else d
  | _ => d

/-! ### The whole assembly -/

/-- The declarations of an assembly, each name once, with the errors about the others. -/
def Declared.ofAssembly (a : Assembly) : List Declared × Draft :=
  distinct (ofItems [] a.items)

/-- The draft with the types of an assembly and no members yet. -/
def Draft.typesOf (a : Assembly) : Draft :=
  let decls := (Declared.ofAssembly a).1
  let d := decls.foldl bindEnum (Declared.ofAssembly a).2
  let d := decls.foldl declareClass d
  decls.foldl (resolveBase decls) d

/-- The draft with all that the declarations of an assembly are bound as. -/
def Draft.ofAssembly (a : Assembly) : Draft :=
  let decls := (Declared.ofAssembly a).1
  decls.foldl (bindMembers decls) (typesOf a)

namespace BindingModel

/-- What the declarations of an assembly are bound as, with all faults among the errors. -/
def ofAssembly (a : Assembly) : BindingModel := (Draft.ofAssembly a).model

/-- Binds the declarations of an assembly, or gives the fault with which the program ends. -/
def bind (a : Assembly) : Except BindingError BindingModel :=
  let m := ofAssembly a
  match m.errors.find? (·.fault.isFatal) with
  | some e => .error e
  | none => .ok m

end BindingModel

end Interop.Model
