/-
# The language of declaration files

The grammar as it is meant, apart from the way in which it is read: for each phrase the lists of
tokens that have its form, and the tree of each of them.  Nothing is said about order, looking ahead
or giving up.  The trees stand nowhere, so that a list of tokens has the same tree wherever it is
written.

Main definition: `Assembly.Derives` relates a list of tokens to an assembly.
-/
import Interop.Proofs.Source.Spans
import Interop.Source.Token

namespace Interop.Source

/-- A form of lists of tokens, each of which stands for something. -/
abbrev Phrase (α : Type) := List Token → α → Prop

section Forms

variable {α : Type}

/-- `p*` -/
inductive Many (p : Phrase α) : Phrase (List α)
  | nil : Many p [] []
  | cons {ts us a as} (hhead : p ts a) (htail : Many p us as) : Many p (ts ++ us) (a :: as)

/-- `p (separator p)*` -/
inductive Separated (separator : Token) (p : Phrase α) : Phrase (List α)
  | one {ts a} (honly : p ts a) : Separated separator p ts [a]
  | cons {ts us a as} (hhead : p ts a) (htail : Separated separator p us as) :
    Separated separator p (ts ++ separator :: us) (a :: as)

/-- `p (operator p)*`, where the operator associates to the left. -/
inductive Chain (operator : Token) (join : α → α → α) (p : Phrase α) : Phrase α
  | one {ts a} (honly : p ts a) : Chain operator join p ts a
  | join {ts us a b} (hleft : Chain operator join p ts a) (hright : p us b) :
    Chain operator join p (ts ++ operator :: us) (join a b)

/-- `(mark p)?` -/
inductive Marked (mark : Token) (p : Phrase α) : Phrase (Option α)
  | none : Marked mark p [] none
  | some {ts a} (hmarked : p ts a) : Marked mark p (mark :: ts) (some a)

/-- `t?` -/
inductive Possibly (t : Token) : List Token → Prop
  | absent : Possibly t []
  | present : Possibly t [t]

/-- `(p (',' p)* ','?)?` -/
inductive Listed (p : Phrase α) : Phrase (List α)
  | nil : Listed p [] []
  | list {ts us as} (hlist : Separated (.symbol .comma) p ts as)
    (hlast : Possibly (.symbol .comma) us) : Listed p (ts ++ us) as

end Forms

/-- `IDENT` -/
inductive Ident : Phrase String
  | mk (name : String) : Ident [.ident name] name

/-- `IDENT ('.' IDENT)*` -/
inductive DottedName.Derives : Phrase DottedName
  | mk {ts names} (hnames : Separated (.symbol .dot) Ident ts names) :
    DottedName.Derives ts ⟨names, .nowhere⟩

section Types

/-- Names that are not those of built-in types. -/
def DottedName.IsDeclared (name : DottedName) : Prop :=
  name.segments ≠ ["string"] ∧ ∀ p : Primitive, name.segments ≠ [p.keyword]

/-- `'void' | dotted ('<' type (',' type)* '>')?`, where a word may be that of a built-in type. -/
inductive TypeExpr.Head (type : Phrase TypeExpr) : Phrase TypeExpr
  | void : Head type [.keyword .voidKw] .void
  | string : Head type [.ident "string"] .string
  | primitive (p : Primitive) : Head type [.ident p.keyword] (.primitive p)
  | named {ts name} (hname : DottedName.Derives ts name) (hdeclared : name.IsDeclared) :
    Head type ts (.named name)
  | generic {ts us name args} (hname : DottedName.Derives ts name)
    (hargs : Separated (.symbol .comma) type us args) :
    Head type (ts ++ .symbol .less :: us ++ [.symbol .greater]) (.generic name args)

/-- `head ('[' ']')*` -/
inductive TypeExpr.Arrayed (type : Phrase TypeExpr) : Phrase TypeExpr
  | head {ts t} (hhead : Head type ts t) : Arrayed type ts t
  | array {ts t} (helement : Arrayed type ts t) :
    Arrayed type (ts ++ [.symbol .leftBracket, .symbol .rightBracket]) (.array t)

/-- `arrayed '?'?` -/
inductive TypeExpr.Derives : Phrase TypeExpr
  | plain {ts t} (htype : Arrayed Derives ts t) : Derives ts t
  | nullable {ts t} (hinner : Arrayed Derives ts t) :
    Derives (ts ++ [.symbol .question]) (.nullable t)

end Types

section Expressions

/-- `INT | dotted | '(' enum_expr ')'`; of a dotted name the last segment counts. -/
inductive EnumExpr.Primary (expr : Phrase EnumExpr) : Phrase EnumExpr
  | literal (value : UInt64) : Primary expr [.integer value] (.literal value .nowhere)
  | item {ts path name} (hpath : Separated (.symbol .dot) Ident ts (path ++ [name])) :
    Primary expr ts (.item name .nowhere)
  | parens {ts e} (hinner : expr ts e) :
    Primary expr (.symbol .leftParen :: ts ++ [.symbol .rightParen]) e

/-- `'-' unary | primary` -/
inductive EnumExpr.Unary (expr : Phrase EnumExpr) : Phrase EnumExpr
  | primary {ts e} (hprimary : Primary expr ts e) : Unary expr ts e
  | negate {ts e} (hoperand : Unary expr ts e) :
    Unary expr (.symbol .minus :: ts) (.negate e .nowhere)

/-- `shift ('|' shift)*`, where `shift` is `unary ('<<' unary)*` -/
inductive EnumExpr.Derives : Phrase EnumExpr
  | mk {ts e} (hchain : Chain (.symbol .pipe) .bitOr
      (Chain (.symbol .shiftLeft) .shiftLeft (Unary Derives)) ts e) : Derives ts e

end Expressions

section Prefixes

/-- An attribute: `IDENT` -/
inductive Attribute.Derives : Phrase Attribute
  | mk (name : String) : Attribute.Derives [.ident name] ⟨name, .nowhere⟩

/-- `'[' IDENT (',' IDENT)* ']'` -/
inductive Attribute.Group : Phrase (List Attribute)
  | mk {ts attributes} (hattributes : Separated (.symbol .comma) Attribute.Derives ts attributes) :
    Attribute.Group (.symbol .leftBracket :: ts ++ [.symbol .rightBracket]) attributes

/-- `attribute*` -/
inductive Attribute.Groups : Phrase (List Attribute)
  | mk {ts groups} (hgroups : Many Attribute.Group ts groups) : Attribute.Groups ts groups.flatten

/-- The words that may stand before a declaration. -/
def Keyword.modifiers : List Keyword :=
  [publicKw, privateKw, protectedKw, internalKw, staticKw, sealedKw, abstractKw, virtualKw,
   overrideKw, readonlyKw]

/-- `modifier*` -/
inductive Keyword.Modifiers : Phrase (List Keyword)
  | nil : Keyword.Modifiers [] []
  | cons {ts k ks} (hmodifier : k ∈ modifiers) (htail : Keyword.Modifiers ts ks) :
    Keyword.Modifiers (.keyword k :: ts) (k :: ks)

/-- The word for a visibility. -/
def Visibility.keyword : Visibility → Keyword
  | publicAccess => .publicKw
  | internalAccess => .internalKw
  | protectedAccess => .protectedKw
  | privateAccess => .privateKw

/-- The visibility of a declaration with the given modifiers: public if any of them says so, or else
the first one that is named, or else the given one. -/
inductive Visibility.Given (default : Visibility) : List Keyword → Visibility → Prop
  | anyPublic {ks} (hmem : .publicKw ∈ ks) : Given default ks .publicAccess
  | first {before after v} (hearlier : ∀ w : Visibility, w.keyword ∉ before)
    (hnonpublic : .publicKw ∉ before ++ v.keyword :: after) :
    Given default (before ++ v.keyword :: after) v
  | unnamed {ks} (hunnamed : ∀ w : Visibility, w.keyword ∉ ks) : Given default ks default

end Prefixes

section Members

/-- `('out' | 'ref' | 'in')?` -/
inductive ParamModifier.Derives : Phrase ParamModifier
  | unmarked : ParamModifier.Derives [] .unmarked
  | outMark : ParamModifier.Derives [.keyword .outKw] .outMark
  | refMark : ParamModifier.Derives [.keyword .refKw] .refMark
  | inMark : ParamModifier.Derives [.keyword .inKw] .inMark

/-- `attribute* ('out' | 'ref' | 'in')? type IDENT` -/
inductive Parameter.Derives : Phrase Parameter
  | mk {ts us vs attributes modifier type} (name : String)
    (hattributes : Attribute.Groups ts attributes) (hmodifier : ParamModifier.Derives us modifier)
    (htype : TypeExpr.Derives vs type) :
    Parameter.Derives (ts ++ us ++ vs ++ [.ident name]) ⟨name, type, modifier, .nowhere⟩

/-- `'(' (param (',' param)*)? ')'` -/
inductive Parameter.InParens : Phrase (List Parameter)
  | nil : Parameter.InParens [.symbol .leftParen, .symbol .rightParen] []
  | list {ts params} (hparams : Separated (.symbol .comma) Parameter.Derives ts params) :
    Parameter.InParens (.symbol .leftParen :: ts ++ [.symbol .rightParen]) params

/-- `modifier* accessor ';'`, where `accessor` is a word and `default` the property's visibility. -/
inductive Accessor.Derives (default : Visibility) (accessor : Keyword) : Phrase Accessor
  | mk {ts ks visibility} (hmodifiers : Keyword.Modifiers ts ks)
    (hvisibility : Visibility.Given default ks visibility) :
    Accessor.Derives default accessor (ts ++ [.keyword accessor, .symbol .semicolon])
      ⟨visibility, .nowhere⟩

/-- The accessors of a property: at most one `get` and at most one `set`, and at least one. -/
inductive Accessor.Pair (default : Visibility) : Phrase (Option Accessor × Option Accessor)
  | getter {ts g} (hgetter : Accessor.Derives default .getKw ts g) :
    Accessor.Pair default ts (some g, none)
  | setter {ts s} (hsetter : Accessor.Derives default .setKw ts s) :
    Accessor.Pair default ts (none, some s)
  | getterSetter {ts us g s} (hgetter : Accessor.Derives default .getKw ts g)
    (hsetter : Accessor.Derives default .setKw us s) :
    Accessor.Pair default (ts ++ us) (some g, some s)
  | setterGetter {ts us g s} (hsetter : Accessor.Derives default .setKw ts s)
    (hgetter : Accessor.Derives default .getKw us g) :
    Accessor.Pair default (ts ++ us) (some g, some s)

/-- `'{' (modifier* ('get' | 'set') ';')+ '}'` -/
inductive Accessor.InBraces (default : Visibility) : Phrase (Option Accessor × Option Accessor)
  | mk {ts both} (hboth : Accessor.Pair default ts both) :
    Accessor.InBraces default (.symbol .leftBrace :: ts ++ [.symbol .rightBrace]) both

/-- `ctor | method | property`, for a type and a visibility of the member. -/
inductive MemberKind.Derives (typeName : String) (visibility : Visibility) :
    Phrase (String × MemberKind)
  | constructor {ts params} (hparams : Parameter.InParens ts params) :
    Derives typeName visibility (.ident typeName :: ts ++ [.symbol .semicolon])
      (typeName, .constructor params)
  | method {ts us type params} (name : String) (htype : TypeExpr.Derives ts type)
    (hparams : Parameter.InParens us params) :
    Derives typeName visibility (ts ++ .ident name :: us ++ [.symbol .semicolon])
      (name, .method params type)
  | property {ts us type getter setter} (name : String) (htype : TypeExpr.Derives ts type)
    (haccessors : Accessor.InBraces visibility us (getter, setter)) :
    Derives typeName visibility (ts ++ .ident name :: us) (name, .property type getter setter)

/-- `attribute* modifier* (ctor | method | property)` -/
inductive Member.Derives (typeName : String) : Phrase Member
  | mk {ts us vs attributes ks visibility name kind} (hattributes : Attribute.Groups ts attributes)
    (hmodifiers : Keyword.Modifiers us ks)
    (hvisibility : Visibility.Given .privateAccess ks visibility)
    (hkind : MemberKind.Derives typeName visibility vs (name, kind)) :
    Member.Derives typeName (ts ++ us ++ vs)
      ⟨name, kind, visibility, ks.contains .staticKw, .nowhere⟩

end Members

section Declarations

/-- `(':' dotted)? '{' member* '}' ';'?` -/
inductive ClassBody.Derives (typeName : String) : Phrase ClassBody
  | mk {ts us vs base members} (hbase : Marked (.symbol .colon) DottedName.Derives ts base)
    (hmembers : Many (Member.Derives typeName) us members)
    (hsemicolon : Possibly (.symbol .semicolon) vs) :
    ClassBody.Derives typeName
      (ts ++ .symbol .leftBrace :: us ++ .symbol .rightBrace :: vs) ⟨base, members⟩

/-- `attribute* IDENT ('=' enum_expr)?` -/
inductive EnumItem.Derives : Phrase EnumItem
  | mk {ts us attributes value} (name : String) (hattributes : Attribute.Groups ts attributes)
    (hvalue : Marked (.symbol .assign) EnumExpr.Derives us value) :
    EnumItem.Derives (ts ++ .ident name :: us) ⟨name, value, .nowhere⟩

/-- `(':' type)? '{' (enum_item (',' enum_item)* ','?)? '}' ';'?` -/
inductive EnumBody.Derives : Phrase EnumBody
  | mk {ts us vs underlying items}
    (hunderlying : Marked (.symbol .colon) TypeExpr.Derives ts underlying)
    (hitems : Listed EnumItem.Derives us items) (hsemicolon : Possibly (.symbol .semicolon) vs) :
    EnumBody.Derives (ts ++ .symbol .leftBrace :: us ++ .symbol .rightBrace :: vs)
      ⟨underlying, items⟩

/-- `('class' | 'struct' | 'enum') IDENT` with its body. -/
inductive TypeBody.Derives : Phrase (String × TypeBody)
  | classBody {ts name body} (hbody : ClassBody.Derives name ts body) :
    TypeBody.Derives (.keyword .classKw :: .ident name :: ts) (name, .classBody body)
  | structBody {ts name body} (hbody : ClassBody.Derives name ts body) :
    TypeBody.Derives (.keyword .structKw :: .ident name :: ts) (name, .structBody body)
  | enumBody {ts name body} (hbody : EnumBody.Derives ts body) :
    TypeBody.Derives (.keyword .enumKw :: .ident name :: ts) (name, .enumBody body)

/-- `attribute* modifier* (class | struct | enum)` -/
inductive TypeDecl.Derives : Phrase TypeDecl
  | mk {ts us vs attributes ks visibility name body} (hattributes : Attribute.Groups ts attributes)
    (hmodifiers : Keyword.Modifiers us ks)
    (hvisibility : Visibility.Given .internalAccess ks visibility)
    (hbody : TypeBody.Derives vs (name, body)) :
    TypeDecl.Derives (ts ++ us ++ vs)
      ⟨name, body, visibility, ks.contains .staticKw, attributes, .nowhere⟩

/-- `'using' dotted ';' | namespace | type_decl`; a using directive leaves no item. -/
inductive Item.Derives : Phrase (Option Item)
  | directive {ts name} (hname : DottedName.Derives ts name) :
    Derives (.keyword .usingKw :: ts ++ [.symbol .semicolon]) none
  | inNamespace {ts us name items} (hname : DottedName.Derives ts name)
    (hitems : Many Derives us items) :
    Derives (.keyword .namespaceKw :: ts ++ .symbol .leftBrace :: us ++ [.symbol .rightBrace])
      (some (.inNamespace name.segments items.reduceOption .nowhere))
  | declared {ts decl} (hdecl : TypeDecl.Derives ts decl) : Derives ts (some (.declared decl))

/-- `item*` -/
inductive Assembly.Derives : Phrase Assembly
  | mk {ts items} (hitems : Many Item.Derives ts items) :
    Assembly.Derives ts ⟨items.reduceOption⟩

end Declarations

end Interop.Source
