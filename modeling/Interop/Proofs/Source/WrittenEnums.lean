/-
# Enums as they are written

The tree of a constant expression keeps of a dotted name its last word only.  Here the whole names
are kept: expressions as they are written, and what it means that a file declares an enum in a
namespace with certain written items.  Reading an expression forgets the words in front
(`WrittenExpr.tree`), and all that the grammar derives is written in some such way.

Main result: `HoldsEnum.exists_of_many`.
-/
import Interop.Model.Binding
import Interop.Proofs.Source.Grammar
import Mathlib.Data.List.ReduceOption

namespace Interop.Source

open Model

/-! ### Expressions -/

/-- A constant expression with the dotted names of its items: the words in front, and the last. -/
inductive WrittenExpr
  | literal (value : UInt64)
  | item (path : List String) (name : String)
  | negate (operand : WrittenExpr)
  | shiftLeft (left right : WrittenExpr)
  | bitOr (left right : WrittenExpr)

namespace WrittenExpr

/-- What is left of an expression in the tree of a file. -/
def tree : WrittenExpr → EnumExpr
  | literal value => .literal value .nowhere
  | item _ name => .item name .nowhere
  | negate operand => .negate operand.tree .nowhere
  | shiftLeft left right => .shiftLeft left.tree right.tree
  | bitOr left right => .bitOr left.tree right.tree

/-- The dotted names in an expression. -/
def names : WrittenExpr → List (List String × String)
  | literal _ => []
  | item path name => [(path, name)]
  | negate operand => operand.names
  | shiftLeft left right | bitOr left right => left.names ++ right.names

/-- `INT | dotted | '(' enum_expr ')'` -/
inductive Primary (expr : Phrase WrittenExpr) : Phrase WrittenExpr
  | literal (value : UInt64) : Primary expr [.integer value] (.literal value)
  | item {ts path name} (hpath : Separated (.symbol .dot) Ident ts (path ++ [name])) :
    Primary expr ts (.item path name)
  | parens {ts e} (hinner : expr ts e) :
    Primary expr (.symbol .leftParen :: ts ++ [.symbol .rightParen]) e

/-- `'-' unary | primary` -/
inductive Unary (expr : Phrase WrittenExpr) : Phrase WrittenExpr
  | primary {ts e} (hprimary : Primary expr ts e) : Unary expr ts e
  | negate {ts e} (hoperand : Unary expr ts e) : Unary expr (.symbol .minus :: ts) (.negate e)

/-- `shift ('|' shift)*`, where `shift` is `unary ('<<' unary)*` -/
inductive Derives : Phrase WrittenExpr
  | mk {ts e} (hchain : Chain (.symbol .pipe) .bitOr
      (Chain (.symbol .shiftLeft) .shiftLeft (Unary Derives)) ts e) : Derives ts e

end WrittenExpr

/-- An expression that the grammar derives is written in some way. -/
lemma EnumExpr.Derives.exists_written {ts : List Token} {e : EnumExpr} (h : Derives ts e) :
    ∃ w, WrittenExpr.Derives ts w ∧ w.tree = e := by
  -- expressions hold expressions at the bottom of chains, so all phrases are covered at once
  refine @EnumExpr.Derives.rec
    (fun ts e _ => ∃ w, WrittenExpr.Derives ts w ∧ w.tree = e)
    (fun ts e _ => ∃ w, Chain (.symbol .pipe) .bitOr (Chain (.symbol .shiftLeft) .shiftLeft
      (WrittenExpr.Unary WrittenExpr.Derives)) ts w ∧ w.tree = e)
    (fun ts e _ => ∃ w, Chain (.symbol .shiftLeft) .shiftLeft
      (WrittenExpr.Unary WrittenExpr.Derives) ts w ∧ w.tree = e)
    (fun ts e _ => ∃ w, WrittenExpr.Unary WrittenExpr.Derives ts w ∧ w.tree = e)
    (fun ts e _ => ∃ w, WrittenExpr.Primary WrittenExpr.Derives ts w ∧ w.tree = e)
    ?whole ?oneShift ?bitOr ?oneUnary ?shiftLeft ?primary ?negate ?literal ?item ?parens ts e h
  case whole =>
    rintro _ _ _ ⟨w, hw, rfl⟩
    exact ⟨w, .mk hw, rfl⟩
  case oneShift =>
    rintro _ _ _ ⟨w, hw, rfl⟩
    exact ⟨w, .one hw, rfl⟩
  case bitOr =>
    rintro _ _ _ _ _ _ ⟨v, hv, rfl⟩ ⟨w, hw, rfl⟩
    exact ⟨.bitOr v w, .join hv hw, rfl⟩
  case oneUnary =>
    rintro _ _ _ ⟨w, hw, rfl⟩
    exact ⟨w, .one hw, rfl⟩
  case shiftLeft =>
    rintro _ _ _ _ _ _ ⟨v, hv, rfl⟩ ⟨w, hw, rfl⟩
    exact ⟨.shiftLeft v w, .join hv hw, rfl⟩
  case primary =>
    rintro _ _ _ ⟨w, hw, rfl⟩
    exact ⟨w, .primary hw, rfl⟩
  case negate =>
    rintro _ _ _ ⟨w, hw, rfl⟩
    exact ⟨.negate w, .negate hw, rfl⟩
  case literal => exact fun value => ⟨.literal value, .literal value, rfl⟩
  case item => exact fun {_ path name} hpath => ⟨.item path name, .item hpath, rfl⟩
  case parens =>
    rintro _ _ _ ⟨w, hw, rfl⟩
    exact ⟨w, .parens hw, rfl⟩

/-! ### Declarations -/

/-- An item of an enum with its expression as it is written. -/
structure WrittenItem where
  name : String
  value : Option WrittenExpr

/-- What is left of an item in the tree of a file. -/
def WrittenItem.tree (i : WrittenItem) : EnumItem := ⟨i.name, i.value.map (·.tree), .nowhere⟩

/-- `attribute* IDENT ('=' enum_expr)?` -/
inductive WrittenItem.Derives : Phrase WrittenItem
  | mk {ts us attributes value} (name : String) (hattributes : Attribute.Groups ts attributes)
    (hvalue : Marked (.symbol .assign) WrittenExpr.Derives us value) :
    WrittenItem.Derives (ts ++ .ident name :: us) ⟨name, value⟩

/-- The declaration of an enum with its items as they are written. -/
inductive WrittenEnum : TypeDecl → Phrase (List WrittenItem)
  | mk {ts us vs ws xs attributes ks visibility underlying items} (name : String)
    (hattributes : Attribute.Groups ts attributes) (hmodifiers : Keyword.Modifiers us ks)
    (hvisibility : Visibility.Given .internalAccess ks visibility)
    (hunderlying : Marked (.symbol .colon) TypeExpr.Derives vs underlying)
    (hitems : Listed WrittenItem.Derives ws items) (hsemicolon : Possibly (.symbol .semicolon) xs) :
    WrittenEnum
      ⟨name, .enumBody ⟨underlying, items.map (·.tree)⟩, visibility, ks.contains .staticKw,
        attributes, .nowhere⟩
      (ts ++ us ++ .keyword .enumKw :: .ident name ::
        (vs ++ .symbol .leftBrace :: ws ++ .symbol .rightBrace :: xs)) items

/-- Among the items of a file, or of a namespace, an enum is declared in an inner namespace. -/
inductive HoldsEnum (decl : TypeDecl) (items : List WrittenItem) :
    List Token → List String → Prop
  | declared {ts} (hdecl : WrittenEnum decl ts items) : HoldsEnum decl items ts []
  | inNamespace {ts us name scope} (hname : DottedName.Derives ts name)
    (hinner : HoldsEnum decl items us scope) :
    HoldsEnum decl items
      (.keyword .namespaceKw :: ts ++ .symbol .leftBrace :: us ++ [.symbol .rightBrace])
      (name.segments ++ scope)
  | before {ts us scope others} (h : HoldsEnum decl items ts scope)
    (hothers : Many Item.Derives us others) : HoldsEnum decl items (ts ++ us) scope
  | behind {ts us scope others} (hothers : Many Item.Derives ts others)
    (h : HoldsEnum decl items us scope) : HoldsEnum decl items (ts ++ us) scope

lemma WrittenEnum.body {decl : TypeDecl} {ts : List Token} {items : List WrittenItem}
    (h : WrittenEnum decl ts items) :
    ∃ underlying, decl.body = .enumBody ⟨underlying, items.map (·.tree)⟩ := by
  cases h with
  | mk => exact ⟨_, rfl⟩

/-- The items in the tree are those that are written. -/
lemma HoldsEnum.body {decl : TypeDecl} {items : List WrittenItem} {ts : List Token}
    {scope : List String} (h : HoldsEnum decl items ts scope) :
    ∃ underlying, decl.body = .enumBody ⟨underlying, items.map (·.tree)⟩ := by
  induction h with
  | declared hdecl => exact hdecl.body
  | inNamespace _ _ ih => exact ih
  | before _ _ ih => exact ih
  | behind _ _ ih => exact ih

/-! ### What is derived is written -/

section Forms

variable {α β : Type} {p : Phrase α} {q : Phrase β} {f : β → α} {ts : List Token}

lemma Marked.exists_written {mark : Token} {a : Option α} (h : Marked mark p ts a)
    (hwritten : ∀ ts a, p ts a → ∃ b, q ts b ∧ f b = a) :
    ∃ b, Marked mark q ts b ∧ b.map f = a := by
  cases h with
  | none => exact ⟨Option.none, .none, rfl⟩
  | some hmarked =>
    obtain ⟨b, hb, rfl⟩ := hwritten _ _ hmarked
    exact ⟨Option.some b, .some hb, rfl⟩

lemma Separated.exists_written {separator : Token} {as : List α} (h : Separated separator p ts as)
    (hwritten : ∀ ts a, p ts a → ∃ b, q ts b ∧ f b = a) :
    ∃ bs, Separated separator q ts bs ∧ bs.map f = as := by
  induction h with
  | one honly =>
    obtain ⟨b, hb, rfl⟩ := hwritten _ _ honly
    exact ⟨[b], .one hb, rfl⟩
  | cons hhead _ ih =>
    obtain ⟨b, hb, rfl⟩ := hwritten _ _ hhead
    obtain ⟨bs, hbs, rfl⟩ := ih
    exact ⟨b :: bs, .cons hb hbs, rfl⟩

lemma Listed.exists_written {as : List α} (h : Listed p ts as)
    (hwritten : ∀ ts a, p ts a → ∃ b, q ts b ∧ f b = a) : ∃ bs, Listed q ts bs ∧ bs.map f = as := by
  cases h with
  | nil => exact ⟨[], .nil, rfl⟩
  | list hlist hlast =>
    obtain ⟨bs, hbs, rfl⟩ := hlist.exists_written hwritten
    exact ⟨bs, .list hbs hlast, rfl⟩

end Forms

lemma EnumItem.Derives.exists_written {ts : List Token} {i : EnumItem} (h : Derives ts i) :
    ∃ w, WrittenItem.Derives ts w ∧ w.tree = i := by
  cases h with
  | mk name hattributes hvalue =>
    obtain ⟨value, hwritten, rfl⟩ := hvalue.exists_written fun _ _ h => h.exists_written
    exact ⟨⟨name, value⟩, .mk name hattributes hwritten, rfl⟩

lemma TypeDecl.Derives.exists_written {ts : List Token} {decl : TypeDecl} (h : Derives ts decl)
    {body : EnumBody} (hbody : decl.body = .enumBody body) :
    ∃ items, WrittenEnum decl ts items := by
  cases h with
  | mk hattributes hmodifiers hvisibility hderives =>
    cases hderives with
    | classBody | structBody => cases hbody
    | enumBody hderives =>
      cases hderives with
      | mk hunderlying hitems hsemicolon =>
        obtain ⟨items, hwritten, rfl⟩ := hitems.exists_written fun _ _ h => h.exists_written
        exact ⟨items, .mk _ hattributes hmodifiers hvisibility hunderlying hwritten hsemicolon⟩

/-- Every enum that some items declare is written among them. -/
lemma HoldsEnum.exists_of_many {ts : List Token} {items : List (Option Item)}
    (h : Many Item.Derives ts items) {outer : List String} {new : Declared}
    (hnew : new ∈ Declared.ofItems outer items.reduceOption) {body : EnumBody}
    (hbody : new.decl.body = .enumBody body) :
    ∃ written scope, new.path.scope = outer ++ scope ∧ HoldsEnum new.decl written ts scope := by
  -- items hold items by way of lists of them, so both are covered at once
  refine @Item.Derives.rec_1
    (fun ts item? _ => ∀ outer, ∀ item ∈ item?, new ∈ Declared.ofItem outer item →
      ∃ written scope, new.path.scope = outer ++ scope ∧ HoldsEnum new.decl written ts scope)
    (fun ts items _ => ∀ outer, new ∈ Declared.ofItems outer items.reduceOption →
      ∃ written scope, new.path.scope = outer ++ scope ∧ HoldsEnum new.decl written ts scope)
    ?directive ?inNamespace ?declared ?nil ?cons ts items h outer hnew
  case directive => exact fun _ _ _ h => absurd h (Option.not_mem_none _)
  case inNamespace =>
    rintro _ _ name _ hname _ ih outer _ ⟨⟩ hnew
    obtain ⟨written, scope, hscope, hholds⟩ := ih _ hnew
    rw [List.append_assoc] at hscope
    exact ⟨written, name.segments ++ scope, hscope, .inNamespace hname hholds⟩
  case declared =>
    rintro _ decl hdecl outer _ ⟨⟩ hnew
    obtain rfl := List.mem_singleton.mp hnew
    obtain ⟨written, hwritten⟩ := hdecl.exists_written hbody
    exact ⟨written, [], (List.append_nil _).symm, .declared hwritten⟩
  case nil => exact fun _ h => absurd h List.not_mem_nil
  case cons =>
    intro ts us item? items hhead htail ihhead ih outer hnew
    have hrest (hnew : new ∈ Declared.ofItems outer items.reduceOption) :
        ∃ written scope, new.path.scope = outer ++ scope ∧
          HoldsEnum new.decl written (ts ++ us) scope := by
      obtain ⟨written, scope, hscope, hholds⟩ := ih outer hnew
      have hone : Many Item.Derives (ts ++ []) [item?] := .cons hhead .nil
      rw [List.append_nil] at hone
      exact ⟨written, scope, hscope, .behind hone hholds⟩
    cases item? with
    | none =>
      rw [List.reduceOption_cons_of_none] at hnew
      exact hrest hnew
    | some item =>
      rw [List.reduceOption_cons_of_some, Declared.ofItems] at hnew
      rcases List.mem_append.mp hnew with hnew | hnew
      · obtain ⟨written, scope, hscope, hholds⟩ := ihhead outer item rfl hnew
        exact ⟨written, scope, hscope, .before hholds htail⟩
      · exact hrest hnew

end Interop.Source
