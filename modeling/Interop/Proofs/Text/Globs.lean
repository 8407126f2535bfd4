/-
# Patterns without wildcards

A pattern of characters that stand for themselves accepts the text that it is, and with a star
behind it all texts that begin with it.  The places of a text that such characters lead to are those
behind an occurrence of them at a place where they start.

Main results:
* `Glob.accepts_literal_iff` and `Glob.accepts_star_iff`: what such patterns accept;
* `Glob.ofPattern_plain` and `Glob.ofPattern_star`: how they are written.
-/
import Interop.Text.GlobSet
import Mathlib.Data.List.Basic

namespace Interop.Text

namespace Glob

/-! ### The places that characters lead to -/

section Leading

variable {cs p : List Char} {here : Places} {i : Nat}

lemma length_leadAll_literal (h : here.length = cs.length + 1) :
    (leadAll cs (p.map .literal) here).length = cs.length + 1 := by
  induction p generalizing here with
  | nil => exact h
  | cons c p ih => exact ih (Places.length_advance _ cs here h)

lemma getElem?_start_iff : (Places.start cs)[i]? = some true ↔ i = 0 := by
  cases i with
  | zero => simp [Places.start]
  | succ i => simp [Places.start, List.getElem?_replicate]

lemma getElem?_advance_iff {q : Char → Bool} :
    (here.advance q cs)[i]? = some true ↔
      ∃ j, i = j + 1 ∧ here[j]? = some true ∧ ∃ c, cs[j]? = some c ∧ q c = true := by
  cases i with
  | zero => simp [Places.getElem?_advance_zero]
  | succ i => simp [Places.getElem?_advance_succ]

lemma cons_prefix_drop_iff {c : Char} :
    c :: p <+: cs.drop i ↔ cs[i]? = some c ∧ p <+: cs.drop (i + 1) := by
  rw [← List.tail_drop, ← List.head?_drop]
  cases cs.drop i with
  | nil => simp
  | cons d ds => simp [List.cons_prefix_cons, eq_comm]

/-- Characters lead behind their occurrences at the places where they start. -/
lemma getElem?_leadAll_literal_iff :
    (leadAll cs (p.map .literal) here)[i]? = some true ↔
      ∃ j, here[j]? = some true ∧ i = j + p.length ∧ p <+: cs.drop j := by
  induction p generalizing here with
  | nil => simp [leadAll]
  | cons c p ih =>
    rw [List.map_cons, leadAll, Part.lead, ih]
    simp only [getElem?_advance_iff, cons_prefix_drop_iff, beq_iff_eq, exists_eq_right]
    constructor
    · rintro ⟨_, ⟨j, rfl, hhere, hc⟩, rfl, hp⟩
      exact ⟨j, hhere, by rw [List.length_cons]; omega, hc, hp⟩
    · rintro ⟨j, hhere, rfl, hc, hp⟩
      exact ⟨j + 1, ⟨j, rfl, hhere, hc⟩, by rw [List.length_cons]; omega, hp⟩

lemma getElem?_onward_iff :
    here.onward[i]? = some true ↔ i < here.length ∧ ∃ j ≤ i, here[j]? = some true := by
  induction here generalizing i with
  | nil => simp [Places.onward]
  | cons reached here ih =>
    cases reached with
    | true =>
      have hfirst : ∃ j ≤ i, (true :: here)[j]? = some true := ⟨0, Nat.zero_le i, rfl⟩
      cases i with
      | zero => simp [Places.onward]
      | succ i => simp [Places.onward, hfirst, List.getElem?_replicate]
    | false =>
      cases i with
      | zero => simp [Places.onward]
      | succ i =>
        rw [Places.onward, List.getElem?_cons_succ, ih, List.length_cons, Nat.succ_lt_succ_iff]
        refine and_congr_right fun _ => ⟨?_, ?_⟩
        · rintro ⟨j, hj, h⟩
          exact ⟨j + 1, by omega, h⟩
        · rintro ⟨_ | j, hj, h⟩
          · cases h
          · exact ⟨j, by omega, h⟩

lemma reachesEnd_iff (h : here.length = cs.length + 1) :
    here.reachesEnd = true ↔ here[cs.length]? = some true := by
  simp [Places.reachesEnd, List.getLast?_eq_getElem?, h]

/-- From the start of a text, characters lead to one place: behind them, if the text begins with
them. -/
lemma getElem?_leadAll_start_iff :
    (leadAll cs (p.map .literal) (.start cs))[i]? = some true ↔ i = p.length ∧ p <+: cs := by
  simp [getElem?_leadAll_literal_iff, getElem?_start_iff]

end Leading

section Accepting

variable {p : List Char} {text : String}

lemma accepts_literal_iff : accepts ⟨p.map .literal⟩ text = true ↔ text.toList = p := by
  have haccepts : accepts ⟨p.map .literal⟩ text =
      (leadAll text.toList (p.map .literal) (.start text.toList)).reachesEnd := by
    rw [accepts]
    split
    · rename_i hparts
      cases p <;> cases hparts
    · rfl
  rw [haccepts, reachesEnd_iff (length_leadAll_literal (Places.length_start _)),
    getElem?_leadAll_start_iff]
  constructor
  · rintro ⟨hlength, hbegins⟩
    exact (hbegins.eq_of_length hlength.symm).symm
  · rintro rfl
    exact ⟨rfl, List.prefix_rfl⟩

lemma accepts_star_iff :
    accepts ⟨p.map .literal ++ [.anyText]⟩ text = true ↔ p <+: text.toList := by
  have hlength := length_leadAll_literal (p := p) (Places.length_start text.toList)
  have haccepts : accepts ⟨p.map .literal ++ [.anyText]⟩ text =
      (leadAll text.toList (p.map .literal) (.start text.toList)).onward.reachesEnd := by
    rw [accepts]
    split
    · rename_i hparts
      cases p with
      | nil => cases hparts
      | cons c p => simp at hparts
    · rw [leadAll_append]
      rfl
  rw [haccepts, reachesEnd_iff ((Places.length_onward _).trans hlength), getElem?_onward_iff,
    hlength]
  simp only [getElem?_leadAll_start_iff]
  constructor
  · rintro ⟨-, _, -, -, hbegins⟩
    exact hbegins
  · intro hbegins
    exact ⟨Nat.lt_succ_self _, p.length, hbegins.length_le, rfl, hbegins⟩

end Accepting

/-! ### Reading patterns -/

/-- A character that stands for itself in patterns. -/
def IsPlainChar (c : Char) : Prop := c ≠ '\\' ∧ c ≠ '[' ∧ Mark.ofChar c = .char c

/-- The characters with a meaning of their own in patterns. -/
def special : List Char := ['\\', '[', '?', '*', '\x7b', '\x7d', ',']

lemma isPlainChar_of_notMem {c : Char} (h : c ∉ special) : IsPlainChar c := by
  simp only [special, List.mem_cons, List.not_mem_nil, or_false, not_or] at h
  obtain ⟨hbackslash, hbracket, hquestion, hstar, hopen, hclose, hcomma⟩ := h
  exact ⟨hbackslash, hbracket, by simp [Mark.ofChar, *]⟩

section Reading

variable {p : List Char}

lemma readMarks_plain (h : ∀ c ∈ p, IsPlainChar c) (cs : List Char) :
    readMarks .outside (p ++ cs) = (readMarks .outside cs).map (p.map .char ++ ·) := by
  induction p with
  | nil => cases hread : readMarks .outside cs <;> simp [hread, Except.map]
  | cons c p ih =>
    obtain ⟨⟨hbackslash, hbracket, hmark⟩, hp⟩ := List.forall_mem_cons.mp h
    rw [List.cons_append, readMarks, ih hp, hmark]
    · cases readMarks .outside cs <;> rfl
    all_goals simp_all

lemma exists_readParts_char (before : Option Mark) (current : List Part) (ms : List Mark) :
    ∃ last, readParts before current [] (p.map .char ++ ms) =
      readParts last ((p.map .literal).reverse ++ current) [] ms := by
  induction p generalizing before current with
  | nil => exact ⟨before, rfl⟩
  | cons c p ih =>
    obtain ⟨last, hread⟩ := ih (some (.char c)) (.literal c :: current)
    refine ⟨last, ?_⟩
    rw [List.map_cons, List.cons_append, readParts, hread]
    simp

lemma ofPattern_plain {pattern : String} (h : ∀ c ∈ pattern.toList, IsPlainChar c) :
    ofPattern pattern = .ok ⟨pattern.toList.map .literal⟩ := by
  have hmarks : readMarks .outside pattern.toList = .ok (pattern.toList.map .char) := by
    have hread := readMarks_plain h []
    simpa [readMarks, Except.map] using hread
  obtain ⟨last, hparts⟩ := exists_readParts_char (p := pattern.toList) none [] []
  rw [List.append_nil, List.append_nil, readParts, List.reverse_reverse] at hparts
  rw [ofPattern, hmarks]
  exact congrArg (Except.map Glob.mk) hparts

lemma ofPattern_star {pattern : String} (h : ∀ c ∈ pattern.toList, IsPlainChar c) :
    ofPattern (pattern ++ "*") = .ok ⟨pattern.toList.map .literal ++ [.anyText]⟩ := by
  have hmarks : readMarks .outside (pattern ++ "*").toList =
      .ok (pattern.toList.map .char ++ [.star]) := by
    rw [String.toList_append, readMarks_plain h]
    rfl
  obtain ⟨last, hparts⟩ := exists_readParts_char (p := pattern.toList) none [] [.star]
  have hstar (current : List Part) :
      readParts last current [] [.star] = .ok (.anyText :: current).reverse := by
    simp [readParts]
  rw [hstar, List.append_nil, List.reverse_cons, List.reverse_reverse] at hparts
  rw [ofPattern, hmarks]
  exact congrArg (Except.map Glob.mk) hparts

end Reading

/-! ### Sets of such patterns -/

lemma nestingOfAll_literal (p : List Char) (parts : List Part) :
    nestingOfAll (p.map .literal ++ parts) = nestingOfAll parts := by
  induction p with
  | nil => rfl
  | cons c p ih => simp [nestingOfAll, Part.nesting, ih]

end Glob

namespace GlobSet

/-- Patterns that are not nested too deep make up a set. -/
lemma ofGlobs_of_forall {globs : List Glob} (h : ∀ g ∈ globs, g.isTooDeep = false) :
    ofGlobs globs = .ok ⟨globs⟩ := by
  have halone : globs.find? (fun g => g.method = .alone && g.isTooDeep) = none := by
    simpa [List.find?_eq_none] using fun g hg _ => h g hg
  have htogether : (globs.filter (·.method = .together)).findIdx? (·.isTooDeep) = none := by
    simpa [List.findIdx?_eq_none_iff] using fun g hg _ => h g hg
  simp only [ofGlobs, halone, htogether]

lemma eq_of_ofGlobs {globs : List Glob} {s : GlobSet} (h : ofGlobs globs = .ok s) :
    s = ⟨globs⟩ := by
  unfold ofGlobs at h
  split at h
  · cases h
  · split at h
    · cases h
    · exact (Except.ok.inj h).symm

end GlobSet

end Interop.Text
