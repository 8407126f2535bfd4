/-
# Objects that come and go

An object is alive as long as code holds it or it has a handle, since the table of handles keeps its
objects.  Objects that are alive have different addresses, and the address of one that is gone may
be given to a new one.  A table that finds the handle of an object by its reference still never
takes one object for another: whatever it has an entry for is alive.
-/
import Interop.Proofs.Managed.HandleTable
import Mathlib.Logic.Relation

namespace Interop.Managed

open Native

/-- The objects that were made so far, and what became of them. -/
structure Lifetimes where
  /-- All objects, each with its address; which one is meant is told by the place in this list. -/
  made : List ObjectRef
  /-- The objects that code holds, or that other objects lead it to. -/
  held : List Nat
  table : HandleTable
  /-- The objects that were given handles, and the handles, call by call. -/
  issued : List (Nat × Handle)

namespace Lifetimes

/-- Nothing has happened. -/
def start : Lifetimes := ⟨[], [], .empty, []⟩

/-- An object is held by code or by the table. -/
def Alive (s : Lifetimes) (i : Nat) : Prop := i ∈ s.held ∨ ∃ h, (i, h) ∈ s.issued

/-- What can happen: an object is made, at an address that no object has that is alive; code gets
hold of an object or lets it go; and an object is given its handle. -/
inductive Step (s : Lifetimes) : Lifetimes → Prop
  | make (o : ObjectRef) (h : ∀ i p, s.Alive i → s.made[i]? = some p → p.index ≠ o.index) :
    Step s { s with made := s.made ++ [o], held := s.made.length :: s.held }
  | hold {i : Nat} (h : s.Alive i) : Step s { s with held := i :: s.held }
  | letGo (i : Nat) : Step s { s with held := s.held.erase i }
  | root {i : Nat} {o : ObjectRef} (h : s.Alive i) (ho : s.made[i]? = some o) :
    Step s { s with table := (s.table.root o).2, issued := s.issued ++ [(i, (s.table.root o).1)] }

/-- Some things happened one after the other. -/
abbrev Steps : Lifetimes → Lifetimes → Prop := Relation.ReflTransGen Step

/-- The address of an object that is gone can be given to another, which is then given a handle, and
given it again. -/
lemma exists_steps_reuse (o : ObjectRef) : ∃ s s' h, Steps start s ∧ Steps s s' ∧
    s.issued = [(1, HandleTable.handleAt 0)] ∧ s'.made = [o, o] ∧
    s'.issued = [(1, HandleTable.handleAt 0), (1, h)] := by
  have hnone : ∀ made : List ObjectRef, ∀ i p, Alive ⟨made, [], .empty, []⟩ i →
      made[i]? = some p → p.index ≠ o.index := by
    rintro made i p (hi | ⟨_, hi⟩) <;> cases hi
  have hmade : Steps start ⟨[o], [0], .empty, []⟩ := .single (.make o (hnone []))
  have hgone : Steps start ⟨[o], [], .empty, []⟩ := hmade.tail (.letGo 0)
  have hagain : Steps start ⟨[o, o], [1], .empty, []⟩ := hgone.tail (.make o (hnone [o]))
  have hheld : ∀ s : Lifetimes, s.held = [1] → s.Alive 1 := by
    rintro s hs
    exact Or.inl (hs ▸ List.mem_cons_self)
  exact ⟨_, _, _, hagain.tail (.root (hheld _ rfl) rfl), .single (.root (hheld _ rfl) rfl),
    rfl, rfl, rfl⟩

/-- The handles given out are those of the table, each for its object, and objects that are alive
have different addresses. -/
structure Sound (s : Lifetimes) : Prop where
  reachable : s.table.Reachable
  alive : ∀ i, s.Alive i → i < s.made.length
  apart : ∀ i j p q, s.Alive i → s.Alive j → s.made[i]? = some p → s.made[j]? = some q →
    p.index = q.index → i = j
  resolves : ∀ i h, (i, h) ∈ s.issued → ∃ o, s.made[i]? = some o ∧ s.table.resolve? h = some o
  known : ∀ h o, s.table.resolve? h = some o → ∃ i, (i, h) ∈ s.issued

/-- What was made and given out stays so. -/
structure Grows (s s' : Lifetimes) : Prop where
  made : ∀ (i : Nat) (o : ObjectRef), s.made[i]? = some o → s'.made[i]? = some o
  table : s.table ≤ s'.table
  issued : ∀ p ∈ s.issued, p ∈ s'.issued

lemma Grows.trans {s₁ s₂ s₃ : Lifetimes} (h : s₁.Grows s₂) (h' : s₂.Grows s₃) : s₁.Grows s₃ :=
  ⟨fun i o ho => h'.made i o (h.made i o ho), le_trans h.table h'.table,
    fun p hp => h'.issued p (h.issued p hp)⟩

lemma getElem?_append_of_some {s : Lifetimes} {i : Nat} {o p : ObjectRef}
    (h : s.made[i]? = some p) : (s.made ++ [o])[i]? = some p := by
  obtain ⟨hlt, _⟩ := List.getElem?_eq_some_iff.mp h
  rw [List.getElem?_append_left hlt]
  exact h

lemma Step.grows {s s' : Lifetimes} (h : Step s s') : s.Grows s' := by
  cases h with
  | make o _ => exact ⟨fun i p hp => getElem?_append_of_some hp, le_rfl, fun _ hp => hp⟩
  | hold | letGo => exact ⟨fun _ _ ho => ho, le_rfl, fun _ hp => hp⟩
  | root _ _ => exact ⟨fun _ _ ho => ho, s.table.le_root _, fun _ hp => List.mem_append_left _ hp⟩

lemma sound_start : start.Sound where
  reachable := .empty
  alive := by rintro i (hi | ⟨h, hi⟩) <;> cases hi
  apart := by rintro i j p q (hi | ⟨h, hi⟩) <;> cases hi
  resolves := by
    intro i h hi
    cases hi
  known := by
    intro h o ho
    cases ho

/-- With no other objects alive than before, and the same handles, all is still well. -/
lemma Sound.of_alive {s : Lifetimes} (hs : s.Sound) {held : List Nat}
    (h : ∀ i ∈ held, s.Alive i) : Sound { s with held } := by
  have halive : ∀ i, ({ s with held } : Lifetimes).Alive i → s.Alive i := by
    rintro i (hi | hi)
    · exact h i hi
    · exact Or.inr hi
  exact ⟨hs.reachable, fun i hi => hs.alive i (halive i hi),
    fun i j p q hi hj => hs.apart i j p q (halive i hi) (halive j hj), hs.resolves, hs.known⟩

/-- A new object has an address of its own. -/
lemma Sound.make {s : Lifetimes} (hs : s.Sound) {o : ObjectRef}
    (h : ∀ i p, s.Alive i → s.made[i]? = some p → p.index ≠ o.index) :
    Sound { s with made := s.made ++ [o], held := s.made.length :: s.held } := by
  have hlast : (s.made ++ [o])[s.made.length]? = some o := List.getElem?_concat_length
  have halive : ∀ i, ({ s with made := s.made ++ [o], held := s.made.length :: s.held } :
      Lifetimes).Alive i → i = s.made.length ∨ s.Alive i := by
    rintro i (hi | hi)
    · rcases List.mem_cons.mp hi with rfl | hi
      · exact Or.inl rfl
      · exact Or.inr (Or.inl hi)
    · exact Or.inr (Or.inr hi)
  have hold : ∀ i p, s.Alive i → (s.made ++ [o])[i]? = some p → s.made[i]? = some p := by
    intro i p hi hp
    rwa [List.getElem?_append_left (hs.alive i hi)] at hp
  refine ⟨hs.reachable, ?_, ?_, ?_, hs.known⟩
  · intro i hi
    rw [List.length_append, List.length_singleton]
    rcases halive i hi with rfl | hi
    · exact Nat.lt_succ_self _
    · exact Nat.lt_succ_of_lt (hs.alive i hi)
  · intro i j p q hi hj hp hq hsame
    rcases halive i hi with rfl | hi
    · obtain rfl := Option.some.inj (hlast.symm.trans hp)
      rcases halive j hj with rfl | hj
      · rfl
      · exact absurd hsame.symm (h j q hj (hold j q hj hq))
    · rcases halive j hj with rfl | hj
      · obtain rfl := Option.some.inj (hlast.symm.trans hq)
        exact absurd hsame (h i p hi (hold i p hi hp))
      · exact hs.apart i j p q hi hj (hold i p hi hp) (hold j q hj hq) hsame
  · intro i k hi
    obtain ⟨p, hp, hres⟩ := hs.resolves i k hi
    exact ⟨p, getElem?_append_of_some hp, hres⟩

/-- The handle that an object is given is its own. -/
lemma Sound.root {s : Lifetimes} (hs : s.Sound) {i : Nat} {o : ObjectRef} (h : s.Alive i)
    (ho : s.made[i]? = some o) :
    Sound { s with table := (s.table.root o).2
                   issued := s.issued ++ [(i, (s.table.root o).1)] } := by
  have halive : ∀ j, ({ s with table := (s.table.root o).2, issued := s.issued ++
      [(i, (s.table.root o).1)] } : Lifetimes).Alive j → s.Alive j := by
    rintro j (hj | ⟨k, hj⟩)
    · exact Or.inl hj
    · rcases List.mem_append.mp hj with hj | hj
      · exact Or.inr ⟨k, hj⟩
      · cases List.mem_singleton.mp hj
        exact h
  refine ⟨hs.reachable.root o, fun j hj => hs.alive j (halive j hj),
    fun j j' p q hj hj' => hs.apart j j' p q (halive j hj) (halive j' hj'), ?_, ?_⟩
  · intro j k hj
    rcases List.mem_append.mp hj with hj | hj
    · obtain ⟨p, hp, hres⟩ := hs.resolves j k hj
      exact ⟨p, hp, HandleTable.resolve?_of_le (s.table.le_root o) hres⟩
    · cases List.mem_singleton.mp hj
      exact ⟨o, ho, hs.reachable.resolve?_root o⟩
  · intro k p hres
    by_cases hk : k = (s.table.root o).1
    · exact ⟨i, List.mem_append_right _ (hk ▸ List.mem_singleton_self _)⟩
    · obtain ⟨j, hj⟩ := hs.known k p (HandleTable.resolve?_of_root hres hk)
      exact ⟨j, List.mem_append_left _ hj⟩

lemma Sound.step {s s' : Lifetimes} (hs : s.Sound) (h : Step s s') : s'.Sound := by
  cases h with
  | make o h => exact hs.make h
  | hold h =>
    refine hs.of_alive ?_
    intro i hi
    rcases List.mem_cons.mp hi with rfl | hi
    · exact h
    · exact Or.inl hi
  | letGo i => exact hs.of_alive fun j hj => Or.inl (List.mem_of_mem_erase hj)
  | root h ho => exact hs.root h ho

/-- Whatever happens, all stays well. -/
lemma Sound.steps {s s' : Lifetimes} (hs : s.Sound) (h : Steps s s') : s'.Sound ∧ s.Grows s' := by
  induction h with
  | refl => exact ⟨hs, fun _ _ ho => ho, le_rfl, fun _ hp => hp⟩
  | tail _ hstep ih => exact ⟨ih.1.step hstep, ih.2.trans hstep.grows⟩

/-- Two handles that were given out are the same exactly when they are for the same object. -/
lemma Sound.handle_eq_iff {s : Lifetimes} (hs : s.Sound) {i j : Nat} {h k : Handle}
    (hi : (i, h) ∈ s.issued) (hj : (j, k) ∈ s.issued) : h = k ↔ i = j := by
  obtain ⟨p, hp, hh⟩ := hs.resolves i h hi
  obtain ⟨q, hq, hk⟩ := hs.resolves j k hj
  constructor
  · rintro rfl
    obtain rfl := Option.some.inj (hh.symm.trans hk)
    exact hs.apart i j p p (Or.inr ⟨h, hi⟩) (Or.inr ⟨h, hj⟩) hp hq rfl
  · rintro rfl
    obtain rfl := Option.some.inj (hp.symm.trans hq)
    exact congrArg Prod.fst ((hs.reachable.root_of_resolve? hh).symm.trans
      (hs.reachable.root_of_resolve? hk))

/-- A number that no handle has that was given out, resolves to nothing. -/
lemma Sound.resolve?_eq_none {s : Lifetimes} (hs : s.Sound) {raw : Nat}
    (h : ∀ p ∈ s.issued, p.2.raw ≠ raw) : (Handle.ofRaw? raw).bind s.table.resolve? = none := by
  rw [Option.bind_eq_none_iff]
  intro k hk
  cases hres : s.table.resolve? k with
  | none => rfl
  | some o =>
    obtain ⟨i, hi⟩ := hs.known k o hres
    have hraw : k.raw = raw := by
      rw [Handle.ofRaw?] at hk
      split at hk <;> cases hk
      rfl
    exact absurd hraw (h (i, k) hi)

end Lifetimes

end Interop.Managed
