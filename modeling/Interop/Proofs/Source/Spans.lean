/-
# Trees without places

Trees that were read from two layouts of one text differ in their spans only.  `withoutSpans` puts
the same span everywhere, so that trees are equal up to their spans exactly if they are equal
without them.
-/
import Interop.Source.Tree
import Mathlib.Tactic.Common

namespace Interop

/-- The span of what stands nowhere. -/
def Span.nowhere : Span := ⟨0, 0⟩

@[simp] lemma Span.nowhere_merge_nowhere : nowhere.merge nowhere = nowhere := rfl

namespace Source

def Attribute.withoutSpans (a : Attribute) : Attribute := { a with span := .nowhere }

def DottedName.withoutSpans (n : DottedName) : DottedName := { n with span := .nowhere }

mutual

def TypeExpr.withoutSpans : TypeExpr → TypeExpr
  | .void => .void
  | .primitive p => .primitive p
  | .string => .string
  | .named name => .named name.withoutSpans
  | .array element => .array element.withoutSpans
  | .generic name args => .generic name.withoutSpans (TypeExpr.allWithoutSpans args)
  | .nullable inner => .nullable inner.withoutSpans

def TypeExpr.allWithoutSpans : List TypeExpr → List TypeExpr
  | [] => []
  | t :: ts => t.withoutSpans :: TypeExpr.allWithoutSpans ts

end

def EnumExpr.withoutSpans : EnumExpr → EnumExpr
  | .literal value _ => .literal value .nowhere
  | .item name _ => .item name .nowhere
  | .negate operand _ => .negate operand.withoutSpans .nowhere
  | .shiftLeft left right => .shiftLeft left.withoutSpans right.withoutSpans
  | .bitOr left right => .bitOr left.withoutSpans right.withoutSpans

def Parameter.withoutSpans (p : Parameter) : Parameter :=
  { p with type := p.type.withoutSpans, span := .nowhere }

def Accessor.withoutSpans (a : Accessor) : Accessor := { a with span := .nowhere }

def MemberKind.withoutSpans : MemberKind → MemberKind
  | .constructor params => .constructor (params.map (·.withoutSpans))
  | .method params returns => .method (params.map (·.withoutSpans)) returns.withoutSpans
  | .property type getter setter =>
    .property type.withoutSpans (getter.map (·.withoutSpans)) (setter.map (·.withoutSpans))

def Member.withoutSpans (m : Member) : Member :=
  { m with kind := m.kind.withoutSpans, span := .nowhere }

def ClassBody.withoutSpans (b : ClassBody) : ClassBody :=
  ⟨b.base.map (·.withoutSpans), b.members.map (·.withoutSpans)⟩

def EnumItem.withoutSpans (i : EnumItem) : EnumItem :=
  { i with value := i.value.map (·.withoutSpans), span := .nowhere }

def EnumBody.withoutSpans (b : EnumBody) : EnumBody :=
  ⟨b.underlying.map (·.withoutSpans), b.items.map (·.withoutSpans)⟩

def TypeBody.withoutSpans : TypeBody → TypeBody
  | .classBody body => .classBody body.withoutSpans
  | .structBody body => .structBody body.withoutSpans
  | .enumBody body => .enumBody body.withoutSpans

def TypeDecl.withoutSpans (d : TypeDecl) : TypeDecl :=
  { d with
    body := d.body.withoutSpans
    attributes := d.attributes.map (·.withoutSpans)
    span := .nowhere }

mutual

/-- An item with another declaration in place of each of its own, and without the spans of
namespaces. -/
def Item.redeclare (g : TypeDecl → TypeDecl) : Item → Item
  | .inNamespace path items _ => .inNamespace path (Item.redeclareAll g items) .nowhere
  | .declared decl => .declared (g decl)

def Item.redeclareAll (g : TypeDecl → TypeDecl) : List Item → List Item
  | [] => []
  | item :: items => item.redeclare g :: Item.redeclareAll g items

end

def Item.withoutSpans (i : Item) : Item := i.redeclare TypeDecl.withoutSpans

def Assembly.withoutSpans (a : Assembly) : Assembly :=
  ⟨Item.redeclareAll TypeDecl.withoutSpans a.items⟩

lemma TypeExpr.allWithoutSpans_eq_map (ts : List TypeExpr) :
    TypeExpr.allWithoutSpans ts = ts.map (·.withoutSpans) := by
  induction ts with
  | nil => rfl
  | cons t ts ih => rw [allWithoutSpans, ih, List.map_cons]

mutual

lemma TypeExpr.text_withoutSpans : ∀ t : TypeExpr, t.withoutSpans.text = t.text
  | .void => rfl
  | .primitive _ => rfl
  | .string => rfl
  | .named _ => rfl
  | .array element => by
    rw [TypeExpr.withoutSpans, TypeExpr.text, TypeExpr.text, text_withoutSpans element]
  | .generic name args => by
    rw [TypeExpr.withoutSpans, TypeExpr.text, TypeExpr.text, texts_allWithoutSpans args]
    rfl
  | .nullable inner => by
    rw [TypeExpr.withoutSpans, TypeExpr.text, TypeExpr.text, text_withoutSpans inner]

lemma TypeExpr.texts_allWithoutSpans : ∀ ts : List TypeExpr,
    TypeExpr.texts (TypeExpr.allWithoutSpans ts) = TypeExpr.texts ts
  | [] => rfl
  | t :: ts => by
    rw [TypeExpr.allWithoutSpans, TypeExpr.texts, TypeExpr.texts, text_withoutSpans t,
      texts_allWithoutSpans ts]

end

lemma Item.redeclareAll_eq_map (g : TypeDecl → TypeDecl) (items : List Item) :
    Item.redeclareAll g items = items.map (·.redeclare g) := by
  induction items with
  | nil => rfl
  | cons item items ih => rw [redeclareAll, ih, List.map_cons]

lemma Assembly.withoutSpans_mk (items : List Item) :
    withoutSpans ⟨items⟩ = ⟨items.map (·.withoutSpans)⟩ := by
  rw [withoutSpans, Item.redeclareAll_eq_map]
  rfl

end Source

end Interop
