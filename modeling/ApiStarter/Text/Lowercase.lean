import Mathlib.Data.List.DropRight

/-!
# Trimming and lowercasing

Texts are lists of characters.  Lowercasing replaces every character by the one
or more that a table gives for it, except that a capital sigma becomes a final
one at the end of a word.  What comes out is lowercase and has blanks at its
ends only where the text had, so trimming and lowercasing once is enough.
-/

namespace Text

section Trim

variable {blank : Char → Bool} {l : List Char}

/-- The text without the blanks at its ends. -/
def strip (blank : Char → Bool) (l : List Char) : List Char :=
  (l.dropWhile blank).rdropWhile blank

/-- No blank at either end. -/
structure Trimmed (blank : Char → Bool) (l : List Char) : Prop where
  head : ∀ c ∈ l.head?, blank c = false
  last : ∀ c ∈ l.getLast?, blank c = false

theorem Trimmed.strip_eq (h : Trimmed blank l) : strip blank l = l := by
  have hleft : l.dropWhile blank = l := by
    cases l with
    | nil => rfl
    | cons c l => exact List.dropWhile_cons_of_neg (by simp [h.head c rfl])
  rw [strip, hleft, List.rdropWhile_eq_self_iff]
  intro hne
  simp [h.last _ (List.getLast?_eq_some_getLast hne)]

theorem trimmed_strip (blank : Char → Bool) (l : List Char) : Trimmed blank (strip blank l) where
  head := by
    intro c hc
    have hprefix : strip blank l <+: l.dropWhile blank := List.rdropWhile_prefix _ _
    have hfirst : c ∈ (l.dropWhile blank).head? := by
      obtain ⟨rest, hrest⟩ := hprefix
      rw [← hrest, List.head?_append, Option.mem_def.mp hc]
      rfl
    have hnot := List.head?_dropWhile_not blank l
    rw [Option.mem_def.mp hfirst] at hnot
    exact hnot
  last := by
    intro c hc
    obtain ⟨hne, rfl⟩ := List.mem_getLast?_eq_getLast hc
    simpa [strip] using List.rdropWhile_last_not blank _ hne

end Trim

/-- What a writing system says about the case of characters.  `blank` characters come from
blank ones only, and what is lowercase stays as it is. -/
structure CaseTable (blank : Char → Bool) where
  lower : Char → List Char
  cased : Char → Bool
  ignorable : Char → Bool
  lower_ne_nil : ∀ c, lower c ≠ []
  lower_lower : ∀ c, ∀ d ∈ lower c, d ≠ 'Σ' ∧ lower d = [d]
  blank_lower : ∀ c, ∀ d ∈ lower c, blank d = true → blank c = true
  sigma : ∀ c ∈ ['σ', 'ς'], lower c = [c] ∧ blank c = false

namespace CaseTable

variable {blank : Char → Bool} (t : CaseTable blank)

/-- A cased character follows, perhaps after ignorable ones. -/
def ignorableThenCased (l : List Char) : Bool := (l.dropWhile t.ignorable).head?.any t.cased

/-- The lowercase of a capital sigma: final at the end of a word. -/
def sigmaIn (before after : List Char) : Char :=
  if t.ignorableThenCased before && !t.ignorableThenCased after then 'ς' else 'σ'

def lowerIn (before : List Char) (c : Char) (after : List Char) : List Char :=
  if c = 'Σ' then [t.sigmaIn before after] else t.lower c

/-- The lowercase of `l`; `before` is what precedes it, nearest first. -/
def lowerFrom (before : List Char) : List Char → List Char
  | [] => []
  | c :: rest => t.lowerIn before c rest ++ lowerFrom (c :: before) rest

def toLowercase (s : String) : String := String.ofList (t.lowerFrom [] s.toList)

/-- Characters that lowercasing leaves alone. -/
def Settled (d : Char) : Prop := d ≠ 'Σ' ∧ t.lower d = [d]

variable {t} {before after l : List Char} {c d : Char}

theorem lowerIn_ne_nil : t.lowerIn before c after ≠ [] := by
  unfold lowerIn
  split
  · simp
  · exact t.lower_ne_nil c

theorem sigmaIn_mem : t.sigmaIn before after ∈ ['σ', 'ς'] := by
  unfold sigmaIn
  split <;> simp

theorem settled_of_mem_lowerIn (h : d ∈ t.lowerIn before c after) : t.Settled d := by
  unfold lowerIn at h
  split at h
  · rw [List.mem_singleton.mp h]
    refine ⟨?_, (t.sigma _ sigmaIn_mem).1⟩
    unfold sigmaIn
    split <;> decide
  · exact t.lower_lower c d h

theorem not_blank_of_mem_lowerIn (h : d ∈ t.lowerIn before c after) (hc : blank c = false) :
    blank d = false := by
  unfold lowerIn at h
  split at h
  · rw [List.mem_singleton.mp h]
    exact (t.sigma _ sigmaIn_mem).2
  · by_contra hd
    simp [t.blank_lower c d h (by simpa using hd)] at hc

theorem settled_of_mem_lowerFrom (h : d ∈ t.lowerFrom before l) : t.Settled d := by
  induction l generalizing before with
  | nil => simp [lowerFrom] at h
  | cons c l ih =>
      rcases List.mem_append.mp h with hc | hl
      · exact settled_of_mem_lowerIn hc
      · exact ih hl

theorem lowerFrom_of_settled (h : ∀ d ∈ l, t.Settled d) : t.lowerFrom before l = l := by
  induction l generalizing before with
  | nil => rfl
  | cons c l ih =>
      obtain ⟨hsigma, hlower⟩ := h c List.mem_cons_self
      rw [lowerFrom, lowerIn, if_neg hsigma, hlower, ih fun d hd ↦ h d (List.mem_cons_of_mem _ hd)]
      rfl

theorem lowerFrom_eq_nil : t.lowerFrom before l = [] ↔ l = [] := by
  cases l with
  | nil => simp [lowerFrom]
  | cons c l => simp [lowerFrom, lowerIn_ne_nil]

/-- Lowercasing puts no blank at an end. -/
theorem trimmed_lowerFrom (h : Trimmed blank l) : Trimmed blank (t.lowerFrom before l) where
  head := by
    intro d hd
    cases l with
    | nil => simp [lowerFrom] at hd
    | cons c l =>
        rw [lowerFrom, List.head?_append_of_ne_nil _ lowerIn_ne_nil] at hd
        exact not_blank_of_mem_lowerIn (List.mem_of_mem_head? hd) (h.head c rfl)
  last := by
    have hlast := h.last
    clear h
    intro d hd
    induction l generalizing before with
    | nil => simp [lowerFrom] at hd
    | cons c l ih =>
        rw [lowerFrom] at hd
        by_cases hl : l = []
        · subst hl
          rw [lowerFrom, List.append_nil] at hd
          exact not_blank_of_mem_lowerIn (List.mem_of_mem_getLast? hd) (hlast c rfl)
        · rw [List.getLast?_append_of_ne_nil _ (mt lowerFrom_eq_nil.mp hl)] at hd
          apply ih ?_ hd
          intro x hx
          apply hlast
          rwa [List.getLast?_cons_of_ne_nil hl]

theorem toLowercase_toLowercase (s : String) :
    t.toLowercase (t.toLowercase s) = t.toLowercase s := by
  simp only [toLowercase, String.toList_ofList]
  rw [lowerFrom_of_settled fun d hd ↦ settled_of_mem_lowerFrom hd]

end CaseTable

end Text
