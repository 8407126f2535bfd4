/-
# Nested spans

What it means for the spans of a tree to be nested: the span of a phrase lies within that of the
phrase that it is a part of, and of phrases that are listed, each ends before the next one begins.
A phrase without a span of its own, such as a type, stands for its parts.

Main definition: `Assembly.NestedIn`.
-/
import Interop.Source.Tree
import Mathlib.Tactic.Common

namespace Interop

namespace Span

variable {a b c : Span}

/-- A span lies within another, and does not end before it starts. -/
structure Inside (a b : Span) : Prop where
  ordered : a.start ≤ a.stop
  within : a.Within b

/-- A span ends before another one begins. -/
def Before (a b : Span) : Prop := a.stop ≤ b.start

lemma Within.trans (h : a.Within b) (h' : b.Within c) : a.Within c :=
  ⟨Nat.le_trans h'.1 h.1, Nat.le_trans h.2 h'.2⟩

lemma Inside.mono (h : a.Inside b) (h' : b.Within c) : a.Inside c := ⟨h.ordered, h.within.trans h'⟩

lemma Inside.self (h : a.Inside b) : a.Inside a := ⟨h.ordered, Nat.le_refl _, Nat.le_refl _⟩

lemma Inside.merge (ha : a.Inside c) (hb : b.Inside c) : (a.merge b).Inside c where
  ordered := Nat.le_trans (Nat.min_le_left ..) (Nat.le_trans ha.ordered (Nat.le_max_left ..))
  within := ⟨Nat.le_min.mpr ⟨ha.within.1, hb.within.1⟩, Nat.max_le.mpr ⟨ha.within.2, hb.within.2⟩⟩

/-- What stands in one part stands before what stands in a later one. -/
lemma Before.of_inside {s t : Span} (ha : a.Inside s) (hb : b.Inside t) (h : s.Before t) :
    a.Before b :=
  Nat.le_trans ha.within.2 (Nat.le_trans h hb.within.1)

end Span

namespace Source

mutual

/-- The names in a type: its own, and those in its arguments. -/
def TypeExpr.names : TypeExpr → List DottedName
  | .void | .primitive _ | .string => []
  | .named name => [name]
  | .array element => element.names
  | .generic name args => name :: TypeExpr.allNames args
  | .nullable inner => inner.names

/-- The names in a list of types. -/
def TypeExpr.allNames : List TypeExpr → List DottedName
  | [] => []
  | t :: ts => t.names ++ TypeExpr.allNames ts

end

lemma TypeExpr.allNames_eq_flatMap (ts : List TypeExpr) : allNames ts = ts.flatMap (·.names) := by
  induction ts with
  | nil => rfl
  | cons t ts ih => rw [allNames, ih, List.flatMap_cons]

/-! ### Trees with nested spans -/

/-- Phrases that are listed stand within a span, one after the other. -/
structure Siblings {α : Type} (nestedIn : α → Span → Prop) (before : α → α → Prop) (xs : List α)
    (outer : Span) : Prop where
  nested : ∀ x ∈ xs, nestedIn x outer
  inOrder : xs.Pairwise before

/-- The names in a type stand within a span. -/
def TypeExpr.NestedIn (t : TypeExpr) (outer : Span) : Prop :=
  ∀ name ∈ t.names, name.span.Inside outer

/-- An expression stands within a span, and each operand within the span of the expression. -/
def EnumExpr.NestedIn : EnumExpr → Span → Prop
  | literal _ span, outer => span.Inside outer
  | item _ span, outer => span.Inside outer
  | negate operand span, outer => span.Inside outer ∧ operand.NestedIn span
  | shiftLeft left right, outer => (left.span.merge right.span).Inside outer ∧
    left.NestedIn (left.span.merge right.span) ∧ right.NestedIn (left.span.merge right.span)
  | bitOr left right, outer => (left.span.merge right.span).Inside outer ∧
    left.NestedIn (left.span.merge right.span) ∧ right.NestedIn (left.span.merge right.span)

/-- Attributes stand within a span, one after the other. -/
def Attribute.AllInside : List Attribute → Span → Prop :=
  Siblings (fun a outer => a.span.Inside outer) fun a a' => a.span.Before a'.span

structure Parameter.NestedIn (p : Parameter) (outer : Span) : Prop where
  span : p.span.Inside outer
  type : p.type.NestedIn p.span

/-- Parameters stand within a span, one after the other. -/
def Parameter.AllNestedIn : List Parameter → Span → Prop :=
  Siblings Parameter.NestedIn fun p q => p.span.Before q.span

/-- The parameters, the type and the accessors of a member stand within a span. -/
def MemberKind.NestedIn : MemberKind → Span → Prop
  | .constructor params, outer => Parameter.AllNestedIn params outer
  | .method params returns, outer => Parameter.AllNestedIn params outer ∧ returns.NestedIn outer
  | .property type getter setter, outer => type.NestedIn outer ∧
    (∀ a ∈ getter, a.span.Inside outer) ∧ ∀ a ∈ setter, a.span.Inside outer

structure Member.NestedIn (m : Member) (outer : Span) : Prop where
  span : m.span.Inside outer
  kind : m.kind.NestedIn m.span

structure ClassBody.NestedIn (b : ClassBody) (outer : Span) : Prop where
  base : ∀ name ∈ b.base, name.span.Inside outer
  members : Siblings Member.NestedIn (fun m m' => m.span.Before m'.span) b.members outer

structure EnumItem.NestedIn (i : EnumItem) (outer : Span) : Prop where
  span : i.span.Inside outer
  value : ∀ e ∈ i.value, e.NestedIn i.span

structure EnumBody.NestedIn (b : EnumBody) (outer : Span) : Prop where
  underlying : ∀ t ∈ b.underlying, t.NestedIn outer
  items : Siblings EnumItem.NestedIn (fun i i' => i.span.Before i'.span) b.items outer

def TypeBody.NestedIn : TypeBody → Span → Prop
  | .classBody body, outer => body.NestedIn outer
  | .structBody body, outer => body.NestedIn outer
  | .enumBody body, outer => body.NestedIn outer

structure TypeDecl.NestedIn (d : TypeDecl) (outer : Span) : Prop where
  span : d.span.Inside outer
  attributes : Attribute.AllInside d.attributes d.span
  body : d.body.NestedIn d.span

/-- Where an item stands. -/
def Item.span : Item → Span
  | .inNamespace _ _ span => span
  | .declared decl => decl.span

/-- An item stands before another one. -/
def Item.Before (i j : Item) : Prop := i.span.Before j.span

/-- An item stands within a span, and what is in it within its own, at any depth of namespaces. -/
inductive Item.NestedIn : Item → Span → Prop
  | inNamespace {path : List String} {items : List Item} {span outer : Span}
    (hspan : span.Inside outer) (hnested : ∀ i ∈ items, i.NestedIn span)
    (hinOrder : items.Pairwise Item.Before) : NestedIn (.inNamespace path items span) outer
  | declared {decl : TypeDecl} {outer : Span} (h : decl.NestedIn outer) :
    NestedIn (.declared decl) outer

/-- The items of a file stand within a span, one after the other, and all in them is nested. -/
def Assembly.NestedIn (a : Assembly) (outer : Span) : Prop :=
  Siblings Item.NestedIn Item.Before a.items outer

/-! ### Larger spans -/

section

variable {s t : Span}

lemma Siblings.mono {α : Type} {nestedIn : α → Span → Prop} {before : α → α → Prop} {xs : List α}
    (h : Siblings nestedIn before xs s) (hmono : ∀ x, nestedIn x s → nestedIn x t) :
    Siblings nestedIn before xs t :=
  ⟨fun x hx => hmono x (h.nested x hx), h.inOrder⟩

lemma TypeExpr.NestedIn.mono {type : TypeExpr} (h : type.NestedIn s) (hst : s.Within t) :
    type.NestedIn t :=
  fun name hname => (h name hname).mono hst

lemma Attribute.AllInside.mono {as : List Attribute} (h : AllInside as s) (hst : s.Within t) :
    AllInside as t :=
  Siblings.mono h fun _ ha => ha.mono hst

lemma Parameter.NestedIn.mono {p : Parameter} (h : p.NestedIn s) (hst : s.Within t) :
    p.NestedIn t :=
  ⟨h.span.mono hst, h.type⟩

lemma Parameter.AllNestedIn.mono {params : List Parameter} (h : AllNestedIn params s)
    (hst : s.Within t) : AllNestedIn params t :=
  Siblings.mono h fun _ hp => hp.mono hst

lemma MemberKind.NestedIn.mono {kind : MemberKind} (h : kind.NestedIn s) (hst : s.Within t) :
    kind.NestedIn t := by
  cases kind with
  | constructor params => exact Parameter.AllNestedIn.mono h hst
  | method params returns => exact ⟨h.1.mono hst, h.2.mono hst⟩
  | property type getter setter =>
    exact ⟨h.1.mono hst, fun a ha => (h.2.1 a ha).mono hst, fun a ha => (h.2.2 a ha).mono hst⟩

lemma Member.NestedIn.mono {m : Member} (h : m.NestedIn s) (hst : s.Within t) : m.NestedIn t :=
  ⟨h.span.mono hst, h.kind⟩

lemma ClassBody.NestedIn.mono {b : ClassBody} (h : b.NestedIn s) (hst : s.Within t) :
    b.NestedIn t :=
  ⟨fun name hname => (h.base name hname).mono hst, h.members.mono fun _ hm => hm.mono hst⟩

lemma EnumItem.NestedIn.mono {i : EnumItem} (h : i.NestedIn s) (hst : s.Within t) :
    i.NestedIn t :=
  ⟨h.span.mono hst, h.value⟩

lemma EnumBody.NestedIn.mono {b : EnumBody} (h : b.NestedIn s) (hst : s.Within t) :
    b.NestedIn t :=
  ⟨fun type htype => (h.underlying type htype).mono hst, h.items.mono fun _ hi => hi.mono hst⟩

lemma TypeBody.NestedIn.mono {b : TypeBody} (h : b.NestedIn s) (hst : s.Within t) :
    b.NestedIn t := by
  cases b with
  | classBody body => exact ClassBody.NestedIn.mono h hst
  | structBody body => exact ClassBody.NestedIn.mono h hst
  | enumBody body => exact EnumBody.NestedIn.mono h hst

lemma TypeDecl.NestedIn.mono {d : TypeDecl} (h : d.NestedIn s) (hst : s.Within t) :
    d.NestedIn t :=
  ⟨h.span.mono hst, h.attributes, h.body⟩

lemma Item.NestedIn.mono {i : Item} (h : i.NestedIn s) (hst : s.Within t) : i.NestedIn t := by
  cases h with
  | inNamespace hspan hnested hinOrder => exact .inNamespace (hspan.mono hst) hnested hinOrder
  | declared h => exact .declared (h.mono hst)

lemma Item.NestedIn.inside {i : Item} (h : i.NestedIn s) : i.span.Inside s := by
  cases h with
  | inNamespace hspan _ _ => exact hspan
  | declared h => exact h.span

end

/-! ### Expressions -/

namespace EnumExpr

/-- What matters for an expression is where it stands itself. -/
lemma nestedIn_iff {e : EnumExpr} {outer : Span} :
    e.NestedIn outer ↔ e.span.Inside outer ∧ e.NestedIn e.span := by
  constructor
  · intro h
    cases e with
    | literal | item => exact ⟨h, h.self⟩
    | negate | shiftLeft | bitOr => exact ⟨h.1, h.1.self, h.2⟩
  · rintro ⟨hspan, h⟩
    cases e with
    | literal | item => exact hspan
    | negate | shiftLeft | bitOr => exact ⟨hspan, h.2⟩

lemma NestedIn.mono {e : EnumExpr} {s t : Span} (h : e.NestedIn s) (hst : s.Within t) :
    e.NestedIn t := by
  obtain ⟨hspan, h⟩ := nestedIn_iff.mp h
  exact nestedIn_iff.mpr ⟨hspan.mono hst, h⟩

variable {left right : EnumExpr} {outer : Span}

lemma nestedIn_merge (hleft : left.NestedIn outer) (hright : right.NestedIn outer) :
    (left.span.merge right.span).Inside outer ∧
      left.NestedIn (left.span.merge right.span) ∧
      right.NestedIn (left.span.merge right.span) := by
  obtain ⟨hl, hleft⟩ := nestedIn_iff.mp hleft
  obtain ⟨hr, hright⟩ := nestedIn_iff.mp hright
  exact ⟨hl.merge hr, hleft.mono (Span.within_merge_left _ _),
    hright.mono (Span.within_merge_right _ _)⟩

end EnumExpr

end Source

end Interop
