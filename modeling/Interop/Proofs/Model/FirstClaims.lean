/-
# Who comes first owns a name

A table of names is asked for names and about names, in any order.  Whatever has been asked, the
owner of a name is the one of the first claim to it, whether later claims are granted or refused,
and the table has one entry for each name that was ever claimed.

Main definitions:
* `Request` and `step`: a claim, or the question whether it would be granted, with the answer;
* `claims`: the claims in a list of requests, granted or not;
* `Tracks`: a table whose owners are those of the first claims in a list.

Main result: `first_claim_owns`.
-/
import Interop.Proofs.Model.SymbolTable
import Mathlib.Data.List.Dedup
import Mathlib.Data.List.Induction

namespace Interop.Model.SymbolTable

variable {κ : Type}

/-- What a table is asked. -/
inductive Request (κ : Type)
  /-- Claims a name. -/
  | register (symbol : String) (claimant : SymbolOwner κ)
  /-- Asks whether a claim would be granted. -/
  | check (symbol : String) (claimant : SymbolOwner κ)

/-- The claim that a request makes, if it makes one. -/
def Request.claim? : Request κ → Option (String × SymbolOwner κ)
  | register symbol claimant => some (symbol, claimant)
  | check _ _ => none

/-- All claims among some requests, granted or not, in order. -/
def claims (requests : List (Request κ)) : List (String × SymbolOwner κ) :=
  requests.filterMap Request.claim?

/-- The owners in a table are those of the first claims, and each name has one entry. -/
structure Tracks (t : SymbolTable κ) (claimed : List (String × SymbolOwner κ)) : Prop where
  owner : ∀ symbol, t.owner? symbol = claimed.lookup symbol
  nodup : (t.entries.map (·.1)).Nodup

section

variable {t : SymbolTable κ} {claimed : List (String × SymbolOwner κ)}

lemma isSome_owner?_iff {symbol : String} :
    (t.owner? symbol).isSome ↔ symbol ∈ t.entries.map (·.1) := by
  rw [owner?, List.lookup_isSome_iff, List.mem_map]
  exact exists_congr fun p => and_congr_right fun _ => by rw [beq_iff_eq, eq_comm]

lemma tracks_empty : Tracks (empty : SymbolTable κ) [] := ⟨fun _ => rfl, List.nodup_nil⟩

/-- After a claim a name has the owner that it had, and else the claimant if it is the name that is
claimed. -/
lemma owner?_claim (t : SymbolTable κ) (symbol other : String) (c : SymbolOwner κ) :
    (t.claim symbol c).owner? other = (t.owner? other).or ([(symbol, c)].lookup other) := by
  cases ho : t.owner? other with
  | some o => rw [owner?_claim_of_eq_some ho, Option.some_or]
  | none =>
    rw [Option.none_or]
    by_cases hs : other = symbol
    · subst hs
      rw [owner?_claim_self ho, List.lookup_cons_self]
    · rw [owner?_claim_of_ne t c hs, ho, List.lookup_cons, beq_eq_false_iff_ne.mpr hs,
        List.lookup_nil]

lemma nodup_claim (h : (t.entries.map (·.1)).Nodup) (symbol : String) (c : SymbolOwner κ) :
    ((t.claim symbol c).entries.map (·.1)).Nodup := by
  rw [claim]
  split
  · exact h
  · rename_i hfree
    rw [List.map_append, List.map_singleton]
    refine h.append (List.nodup_singleton _) (List.disjoint_singleton.mpr fun hmem => ?_)
    rw [← isSome_owner?_iff, hfree] at hmem
    cases hmem

lemma Tracks.claim (h : Tracks t claimed) (symbol : String) (c : SymbolOwner κ) :
    Tracks (t.claim symbol c) (claimed ++ [(symbol, c)]) where
  owner other := by rw [owner?_claim, h.owner, List.lookup_append]
  nodup := nodup_claim h.nodup symbol c

/-- There are as many entries as different names in the claims. -/
lemma Tracks.size_eq (h : Tracks t claimed) : t.size = (claimed.map (·.1)).dedup.length := by
  have hperm : (t.entries.map (·.1)).Perm (claimed.map (·.1)).dedup := by
    rw [List.perm_ext_iff_of_nodup h.nodup (List.nodup_dedup _)]
    intro symbol
    rw [List.mem_dedup, ← isSome_owner?_iff, h.owner]
    exact isSome_owner?_iff (t := ⟨claimed⟩)
  rw [size, ← List.length_map, hperm.length_eq]

end

variable [DecidableEq κ]

/-- What a request does to a table, and its answer, which for a refusal is the owner in the way. -/
def step (t : SymbolTable κ) : Request κ → SymbolTable κ × Except (SymbolOwner κ) Unit
  | .register symbol claimant =>
    match t.register symbol claimant with
    | .ok t' => (t', .ok ())
    | .error owner => (t, .error owner)
  | .check symbol claimant =>
    match t.rival? symbol claimant with
    | none => (t, .ok ())
    | some owner => (t, .error owner)

/-- The table after some requests, each of which may be refused. -/
def run (t : SymbolTable κ) (requests : List (Request κ)) : SymbolTable κ :=
  requests.foldl (fun t r => (t.step r).1) t

/-! ### One request -/

/-- A claim leaves behind the same table whether it is granted or refused: a name that is refused
has an owner. -/
lemma step_register (t : SymbolTable κ) (symbol : String) (c : SymbolOwner κ) :
    t.step (.register symbol c) = (t.claim symbol c, (t.step (.check symbol c)).2) := by
  rw [step, step, register]
  cases hrival : t.rival? symbol c with
  | none => rfl
  | some owner => rw [claim, (rival?_eq_some_iff.mp hrival).1]

lemma step_check (t : SymbolTable κ) (symbol : String) (c : SymbolOwner κ) :
    (t.step (.check symbol c)).1 = t := by
  rw [step]
  split <;> rfl

/-- A refusal names the owner, who has another key. -/
lemma step_check_eq_error_iff {t : SymbolTable κ} {symbol : String} {c o : SymbolOwner κ} :
    (t.step (.check symbol c)).2 = .error o ↔ t.owner? symbol = some o ∧ o.key ≠ c.key := by
  rw [← rival?_eq_some_iff, step]
  cases t.rival? symbol c <;> simp

/-- A claim is granted if the name is free, or if its owner has the same key. -/
lemma step_check_eq_ok_iff {t : SymbolTable κ} {symbol : String} {c : SymbolOwner κ} :
    (t.step (.check symbol c)).2 = .ok () ↔
      t.owner? symbol = none ∨ ∃ o, t.owner? symbol = some o ∧ o.key = c.key := by
  have hgranted : (t.step (.check symbol c)).2 = .ok () ↔ t.rival? symbol c = none := by
    rw [step]
    cases t.rival? symbol c <;> simp
  rw [hgranted, rival?_eq_none_iff, key?]
  cases t.owner? symbol <;> simp

lemma step_of_error {t : SymbolTable κ} {r : Request κ} {o : SymbolOwner κ}
    (h : (t.step r).2 = .error o) : (t.step r).1 = t := by
  cases r with
  | check symbol c => exact t.step_check symbol c
  | register symbol c =>
    rw [step_register] at h ⊢
    rw [claim, (step_check_eq_error_iff.mp h).1]

/-- Nobody loses a name. -/
lemma owner?_step {t : SymbolTable κ} {symbol : String} {o : SymbolOwner κ}
    (h : t.owner? symbol = some o) (r : Request κ) : (t.step r).1.owner? symbol = some o := by
  cases r with
  | check other c => rw [step_check, h]
  | register other c => rw [step_register, owner?_claim_of_eq_some h]

lemma Tracks.step {t : SymbolTable κ} {requests : List (Request κ)} (h : Tracks t (claims requests))
    (r : Request κ) : Tracks (t.step r).1 (claims (requests ++ [r])) := by
  rw [claims, List.filterMap_append]
  cases r with
  | check symbol c =>
    rw [step_check, List.filterMap_cons_none rfl, List.filterMap_nil, List.append_nil]
    exact h
  | register symbol c =>
    rw [step_register]
    exact h.claim symbol c

/-! ### Any requests -/

lemma tracks_run (requests : List (Request κ)) : Tracks (run .empty requests) (claims requests) := by
  induction requests using List.reverseRecOn with
  | nil => exact tracks_empty
  | append_singleton requests r ih =>
    rw [run, List.foldl_append]
    exact ih.step r

lemma owner?_run {t : SymbolTable κ} {symbol : String} {o : SymbolOwner κ}
    (h : t.owner? symbol = some o) (requests : List (Request κ)) :
    (t.run requests).owner? symbol = some o :=
  List.foldlRecOn (motive := fun t' : SymbolTable κ => t'.owner? symbol = some o) requests _ h
    fun _ ht r _ => owner?_step ht r

/-- Whatever a table has been asked, a name belongs to its first claimant, and it will whatever the
table is asked from then on.  A claim is granted exactly if the name was never claimed, or if its
first claimant has the same key; else the first claimant is named and nothing changes.  To ask about
a claim gets the answer that the claim would get, and changes nothing.  The table has as many
entries as different names were ever claimed. -/
theorem first_claim_owns (requests : List (Request κ)) :
    let t := run .empty requests
    (∀ symbol, t.owner? symbol = (claims requests).lookup symbol) ∧
    (∀ symbol o, (claims requests).lookup symbol = some o →
      ∀ later, (run .empty (requests ++ later)).owner? symbol = some o) ∧
    (∀ symbol c, (t.step (.register symbol c)).2 = .ok () ↔
      (claims requests).lookup symbol = none ∨
        ∃ first, (claims requests).lookup symbol = some first ∧ first.key = c.key) ∧
    (∀ symbol c o, (t.step (.register symbol c)).2 = .error o ↔
      (claims requests).lookup symbol = some o ∧ o.key ≠ c.key) ∧
    (∀ r o, (t.step r).2 = .error o → (t.step r).1 = t) ∧
    (∀ symbol c, t.step (.check symbol c) = (t, (t.step (.register symbol c)).2)) ∧
    t.size = ((claims requests).map (·.1)).dedup.length := by
  intro t
  have htracks : Tracks t (claims requests) := tracks_run requests
  refine ⟨htracks.owner, ?_, ?_, ?_, fun r o => step_of_error, ?_, htracks.size_eq⟩
  · intro symbol o hfirst later
    rw [run, List.foldl_append]
    exact owner?_run ((htracks.owner symbol).trans hfirst) later
  · intro symbol c
    rw [step_register, step_check_eq_ok_iff, htracks.owner]
  · intro symbol c o
    rw [step_register, step_check_eq_error_iff, htracks.owner]
  · intro symbol c
    rw [step_register]
    exact Prod.ext (t.step_check symbol c) rfl

/-- A name that somebody else claims too, and that its owner then claims under another
description. -/
theorem first_claim_owns_contested :
    let requests : List (Request Nat) := [.check "A" ⟨2, "late"⟩, .register "A" ⟨1, "first"⟩,
      .register "A" ⟨2, "late"⟩, .register "B" ⟨2, "late"⟩, .register "A" ⟨1, "again"⟩]
    let t := run .empty requests
    t.owner? "A" = some ⟨1, "first"⟩ ∧ t.size = 2 ∧
      (t.step (.register "A" ⟨1, "later"⟩)).2 = .ok () ∧
      t.step (.register "A" ⟨2, "late"⟩) = (t, .error ⟨1, "first"⟩) ∧
      (run .empty (requests ++ [.register "A" ⟨3, "last"⟩])).owner? "A" = some ⟨1, "first"⟩ := by
  intro requests t
  have hfirst : (claims requests).lookup "A" = some ⟨1, "first"⟩ := by decide
  obtain ⟨howner, hkept, hgranted, hrefused, hsame, -, hsize⟩ := first_claim_owns requests
  have herror : (t.step (.register "A" ⟨2, "late"⟩)).2 = .error ⟨1, "first"⟩ :=
    (hrefused ..).mpr ⟨hfirst, by decide⟩
  refine ⟨(howner "A").trans hfirst, hsize.trans (by decide), ?_, ?_, hkept _ _ hfirst _⟩
  · exact (hgranted ..).mpr (.inr ⟨_, hfirst, rfl⟩)
  · exact Prod.ext (hsame _ _ herror) herror

end Interop.Model.SymbolTable
