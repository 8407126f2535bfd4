/-
# The grammar of declaration files

One reader for each phrase: dotted names, types, constant expressions, attributes, modifiers,
parameters, members, type declarations and namespaces.  Where a phrase can hold a phrase of
its own kind (type arguments, parentheses, nested namespaces), its reader takes the reader of
the inner phrase as an argument, and the depth of nesting is bounded by the number of tokens.

Main definition: `Assembly.ofText` reads a whole file.
-/
import Interop.Source.Cursor
import Interop.Source.Lexer
import Interop.Source.Tree

namespace Interop.Source

open Reader

/-- A dotted name; `what` says what it is for. -/
def DottedName.read (what : String) : Reader DottedName := do
  let start := (← next).span
  let head ← ident what
  if ← accept (.symbol .dot) then
    let tail ← separated (.symbol .dot) (ident "identifier after '.'")
    return ⟨head :: tail, start.merge (← last)⟩
  else return ⟨[head], start.merge (← last)⟩

/-- A word that stands for a type of its own, or else a declared type's name. -/
def TypeExpr.ofName (name : DottedName) : TypeExpr :=
  match name.segments with
  | [word] =>
    if word = "string" then .string
    else
      match Primitive.ofKeyword? word with
      | some p => .primitive p
      | none => .named name
  | _ => .named name

/-- At most `n` pairs of brackets behind a type. -/
def TypeExpr.readSuffix (type : TypeExpr) : Nat → Reader TypeExpr
  | 0 => pure type
  | n + 1 => do
    if ← accept (.symbol .leftBracket) then
      expect (.symbol .rightBracket) "']' (only single-dimension arrays are supported)"
      readSuffix (.array type) n
    else return type

/-- A type whose arguments are read by `argument`. -/
def TypeExpr.readWith (argument : Reader TypeExpr) : Reader TypeExpr := do
  let head ←
    if ← accept (.keyword .voidKw) then pure .void
    else do
      let name ← DottedName.read "type name"
      if ← accept (.symbol .less) then
        let args ← separated (.symbol .comma) argument
        expect (.symbol .greater) "'>' after type arguments"
        pure (.generic name args)
      else pure (.ofName name)
  let type ← bounded (readSuffix head)
  if ← accept (.symbol .question) then return .nullable type
  else return type

/-- A type with arguments nested at most `n` deep. -/
def TypeExpr.readTo : Nat → Reader TypeExpr
  | 0 => unexpected "type name"
  | n + 1 => readWith (readTo n)

/-- A type. -/
def TypeExpr.read : Reader TypeExpr := bounded readTo

/-- A literal, an item's name, or an expression in parentheses, which `inner` reads.  Of a
dotted name the last segment is the item. -/
def EnumExpr.readPrimary (inner : Reader EnumExpr) : Reader EnumExpr := do
  let l ← next
  match l.token with
  | .integer value =>
    advance
    return .literal value l.span
  | .ident _ =>
    let name ← DottedName.read "enum item"
    return .item (name.segments.getLastD "") name.span
  | .symbol .leftParen =>
    advance
    let e ← inner
    expect (.symbol .rightParen) "')'"
    return e
  | found => fail (.expected "enum value" found) l.span

/-- The offsets of the minus signs that come next, at most `n` of them. -/
def EnumExpr.readSigns : Nat → Reader (List Nat)
  | 0 => pure []
  | n + 1 => do
    if ← accept (.symbol .minus) then
      let start := (← last).start
      let starts ← readSigns n
      return start :: starts
    else return []

/-- An expression with any number of minus signs before it. -/
def EnumExpr.readUnary (inner : Reader EnumExpr) : Reader EnumExpr := do
  let starts ← bounded readSigns
  let operand ← readPrimary inner
  return starts.foldr (fun start e => .negate e ⟨start, e.span.stop⟩) operand

/-- An expression whose parentheses are read by `inner`.  Shifts bind tighter than `|`. -/
def EnumExpr.readWith (inner : Reader EnumExpr) : Reader EnumExpr :=
  chain (.symbol .pipe) (chain (.symbol .shiftLeft) (readUnary inner) .shiftLeft) .bitOr

/-- An expression with parentheses nested at most `n` deep. -/
def EnumExpr.readTo : Nat → Reader EnumExpr
  | 0 => unexpected "enum value"
  | n + 1 => readWith (readTo n)

/-- A constant expression. -/
def EnumExpr.read : Reader EnumExpr := bounded readTo

/-- An attribute's name. -/
def Attribute.read : Reader Attribute := do
  let span := (← next).span
  return ⟨← ident "attribute name", span⟩

/-- At most `n` lists of attributes in brackets. -/
def Attribute.readLists : Nat → Reader (List Attribute)
  | 0 => pure []
  | n + 1 => do
    if ← accept (.symbol .leftBracket) then
      let here ← separated (.symbol .comma) Attribute.read
      expect (.symbol .rightBracket) "']' after attribute"
      return here ++ (← readLists n)
    else return []

/-- Any number of lists of attributes in brackets. -/
def Attribute.readAll : Reader (List Attribute) := bounded readLists

/-- The visibility that a keyword names. -/
def Visibility.ofKeyword? : Keyword → Option Visibility
  | .publicKw => some .publicAccess
  | .internalKw => some .internalAccess
  | .protectedKw => some .protectedAccess
  | .privateKw => some .privateAccess
  | _ => none

/-- The keywords that may stand before a declaration in any order. -/
def Keyword.isModifier (k : Keyword) : Bool :=
  (Visibility.ofKeyword? k).isSome ||
    [staticKw, sealedKw, abstractKw, virtualKw, overrideKw, readonlyKw].contains k

/-- The visibility that a list of modifiers gives: public if any of them is, or else the
first one named. -/
def Visibility.ofModifiers? (ks : List Keyword) : Option Visibility :=
  if ks.contains .publicKw then some .publicAccess else ks.findSome? ofKeyword?

/-- The modifiers in front of a declaration. -/
def Keyword.readModifiers : Reader (List Keyword) := keywords isModifier

/-- The word in front of a parameter's type. -/
def ParamModifier.read : Reader ParamModifier := do
  if ← accept (.keyword .outKw) then return .outMark
  else if ← accept (.keyword .refKw) then return .refMark
  else if ← accept (.keyword .inKw) then return .inMark
  else return .unmarked

/-- A parameter.  It has no default value. -/
def Parameter.read : Reader Parameter := do
  let start := (← next).span.start
  let _ ← Attribute.readAll
  let modifier ← ParamModifier.read
  let type ← TypeExpr.read
  let name ← ident "parameter name"
  let l ← next
  if l.token = .symbol .assign then fail .defaultValue l.span
  else return ⟨name, type, modifier, ← spanFrom start⟩

/-- The parameters between two parentheses, the first of which has been read. -/
def Parameter.readList : Reader (List Parameter) := do
  let params ←
    if ← sees (.symbol .rightParen) then pure []
    else separated (.symbol .comma) Parameter.read
  expect (.symbol .rightParen) "')' after parameters"
  return params

/-- At most `n` accessors of a property, after those already read. -/
def Accessor.readTimes (default : Visibility) (getter setter : Option Accessor) :
    Nat → Reader (Option Accessor × Option Accessor)
  | 0 => pure (getter, setter)
  | n + 1 => do
    let l ← next
    if l.token = .endOfFile || l.token = .symbol .rightBrace then return (getter, setter)
    let modifiers ← Keyword.readModifiers
    let visibility := (Visibility.ofModifiers? modifiers).getD default
    if ← accept (.keyword .getKw) then
      let span ← spanFrom l.span.start
      if getter.isSome then fail .duplicateAccessor span
      expect (.symbol .semicolon) "';' after accessor"
      readTimes default (some ⟨visibility, span⟩) setter n
    else if ← accept (.keyword .setKw) then
      let span ← spanFrom l.span.start
      if setter.isSome then fail .duplicateAccessor span
      expect (.symbol .semicolon) "';' after accessor"
      readTimes default getter (some ⟨visibility, span⟩) n
    else unexpected "'get' or 'set'"

/-- The accessors of a property in braces: a getter, a setter, or both, in either order. -/
def Accessor.readBoth (default : Visibility) : Reader (Option Accessor × Option Accessor) := do
  let opening := (← next).span
  expect (.symbol .leftBrace) "'\x7b'"
  let (getter, setter) ← bounded (readTimes default none none)
  expect (.symbol .rightBrace) "'\x7d' after accessors"
  if getter.isNone && setter.isNone then fail .noAccessor (opening.merge (← last))
  else return (getter, setter)

/-- What follows the type of a member: its name, with a method's parameters or a property's
accessors. -/
def Member.readTyped (visibility : Visibility) (type : TypeExpr) :
    Reader (String × MemberKind) := do
  let l ← next
  if l.token = .keyword .operatorKw then fail .operatorMember l.span
  let name ← ident "member name"
  let l ← next
  match l.token with
  | .symbol .leftParen =>
    advance
    let params ← Parameter.readList
    expect (.symbol .semicolon) "';' after method declaration"
    return (name, .method params type)
  | .symbol .leftBrace =>
    let (getter, setter) ← Accessor.readBoth visibility
    return (name, .property type getter setter)
  | .symbol .semicolon | .symbol .assign => fail (.field name) (← last)
  | _ => unexpected "'(' or '\x7b' after member name"

/-- A constructor: the name of the type and parameters. -/
def Member.readConstructor : Reader (String × MemberKind) := do
  let name ← ident "member name"
  expect (.symbol .leftParen) "'('"
  let params ← Parameter.readList
  expect (.symbol .semicolon) "';' after constructor declaration"
  return (name, .constructor params)

/-- A member of the type called `typeName`. -/
def Member.read (typeName : String) : Reader Member := do
  let start := (← next).span.start
  let _ ← Attribute.readAll
  let modifiers ← Keyword.readModifiers
  let visibility := (Visibility.ofModifiers? modifiers).getD .privateAccess
  let l ← next
  let (name, kind) ←
    match l.token with
    | .keyword .classKw | .keyword .structKw | .keyword .enumKw => fail .nestedType l.span
    | .keyword .operatorKw => fail (.unsupportedMember .operatorKw) l.span
    | .keyword .eventKw => fail (.unsupportedMember .eventKw) l.span
    | t => do
      if t = .ident typeName && (← second?) = some (.symbol .leftParen) then readConstructor
      else
        let type ← TypeExpr.read
        readTyped visibility type
  return ⟨name, kind, visibility, modifiers.contains .staticKw, ← spanFrom start⟩

/-- The base of a class or a struct, if one is named.  There is at most one. -/
def ClassBody.readBase : Reader (Option DottedName) := do
  if ← accept (.symbol .colon) then
    let base ← DottedName.read "base type name"
    let l ← next
    if l.token = .symbol .comma then fail .multipleBases l.span
    else return some base
  else return none

/-- What follows the name of a class or a struct.  A semicolon may end it. -/
def ClassBody.read (typeName : String) : Reader ClassBody := do
  let base ← readBase
  expect (.symbol .leftBrace) "'\x7b' after type name"
  let members ← untilToken (· = .symbol .rightBrace) (Member.read typeName)
  expect (.symbol .rightBrace) "'\x7d' to close type body"
  let _ ← accept (.symbol .semicolon)
  return ⟨base, members⟩

/-- An item of an enum. -/
def EnumItem.read : Reader EnumItem := do
  let start := (← next).span.start
  let _ ← Attribute.readAll
  let name ← ident "enum item name"
  let value ←
    if ← accept (.symbol .assign) then some <$> EnumExpr.read
    else pure none
  return ⟨name, value, ← spanFrom start⟩

/-- What follows the name of an enum.  A semicolon may end it. -/
def EnumBody.read : Reader EnumBody := do
  let underlying ←
    if ← accept (.symbol .colon) then some <$> TypeExpr.read
    else pure none
  expect (.symbol .leftBrace) "'\x7b' after enum name"
  let items ← listed (.symbol .rightBrace) EnumItem.read
  expect (.symbol .rightBrace) "'\x7d' after enum items"
  let _ ← accept (.symbol .semicolon)
  return ⟨underlying, items⟩

/-- The name and the body of a type, after its modifiers. -/
def TypeBody.read : Reader (String × TypeBody) := do
  match (← next).token with
  | .keyword .classKw =>
    advance
    let name ← ident "type name"
    return (name, .classBody (← ClassBody.read name))
  | .keyword .structKw =>
    advance
    let name ← ident "type name"
    return (name, .structBody (← ClassBody.read name))
  | .keyword .enumKw =>
    advance
    let name ← ident "enum name"
    return (name, .enumBody (← EnumBody.read))
  | _ => unexpected "'class', 'struct' or 'enum'"

/-- The declaration of a type. -/
def TypeDecl.read : Reader TypeDecl := do
  let start := (← next).span.start
  let attributes ← Attribute.readAll
  let modifiers ← Keyword.readModifiers
  let (name, body) ← TypeBody.read
  let visibility := (Visibility.ofModifiers? modifiers).getD .internalAccess
  return ⟨name, body, visibility, modifiers.contains .staticKw, attributes, ← spanFrom start⟩

/-- A namespace, whose items are read by `items`. -/
def Item.readNamespace (items : Reader (List Item)) : Reader Item := do
  let start := (← next).span.start
  expect (.keyword .namespaceKw) "'namespace'"
  let path ← DottedName.read "namespace name"
  expect (.symbol .leftBrace) "'\x7b' after namespace name"
  let items ← items
  expect (.symbol .rightBrace) "'\x7d' to close namespace"
  return .inNamespace path.segments items (← spanFrom start)

/-- An item; a using directive leaves none. -/
def Item.readWith (items : Reader (List Item)) : Reader (Option Item) := do
  if ← accept (.keyword .usingKw) then
    let _ ← DottedName.read "namespace after 'using'"
    expect (.symbol .semicolon) "';' after using directive"
    return none
  else if ← sees (.keyword .namespaceKw) then some <$> readNamespace items
  else
    let decl ← TypeDecl.read
    return some (.declared decl)

/-- The items of a file, or of a namespace up to its closing brace, with namespaces nested
less than `n` deep. -/
def Item.readTo (stop : Token → Bool) : Nat → Reader (List Item)
  | 0 => pure []
  | n + 1 => do
    let items ← untilToken stop (readWith (readTo (· = .symbol .rightBrace) n))
    return items.reduceOption

/-- The content of a list of tokens. -/
def Assembly.ofLexemes (ls : List Lexeme) : Except SyntaxError Assembly :=
  (bounded (Item.readTo fun _ => false) (.ofLexemes ls)).map fun (items, _) => ⟨items⟩

/-- The content of a source text. -/
def Assembly.ofText (source : String) : Except SyntaxError Assembly :=
  Lexeme.ofText source >>= Assembly.ofLexemes

/-- A text that is read, and what can be told of its content. -/
theorem Assembly.exists_of_any {source : String} {p : Assembly → Bool}
    (h : (ofText source).toOption.any p = true) : ∃ a, ofText source = .ok a ∧ p a = true := by
  cases hread : ofText source with
  | error e =>
    rw [hread] at h
    cases h
  | ok a =>
    rw [hread] at h
    exact ⟨a, rfl, h⟩

end Interop.Source
