import Mathlib.Data.List.Basic

/-!
# Lines

A text is cut at its newlines.  A carriage return right before a newline belongs
to the line's end, so joining the lines again and cutting the result once more
costs a line one carriage return, if it ends in one, and nothing else.
-/

namespace Text

abbrev Line := List Char

def blanks : List Char :=
  [' ', '\t', '\n', '\x0b', '\x0c', '\r', '\u0085', '\u00a0', '\u1680', '\u2028', '\u2029',
    '\u202f', '\u205f', '\u3000']

/-- White space, as Unicode defines it. -/
def isWhitespace (c : Char) : Bool := c ∈ blanks || ('\u2000' ≤ c && c ≤ '\u200a')

def trimStart (l : Line) : Line := l.dropWhile isWhitespace

/-- The line without the carriage return at its end. -/
def dropReturn (l : Line) : Line := if l.getLast? = some '\r' then l.dropLast else l

/-- The lines of a text, `line` being what has been read of the first one. -/
def linesFrom (line : Line) : List Char → List Line
  | [] => if line.isEmpty then [] else [line]
  | c :: text =>
      if c = '\n' then dropReturn line :: linesFrom [] text else linesFrom (line ++ [c]) text

def lines (text : List Char) : List Line := linesFrom [] text

/-- The lines of a text with their ends, `line` being what has been read of the first one. -/
def wholeLinesFrom (line : Line) : List Char → List Line
  | [] => if line.isEmpty then [] else [line]
  | c :: text =>
      if c = '\n' then (line ++ ['\n']) :: wholeLinesFrom [] text
      else wholeLinesFrom (line ++ [c]) text

def wholeLines (text : List Char) : List Line := wholeLinesFrom [] text

/-- The line without its end. -/
def dropEnd (l : Line) : Line := if l.getLast? = some '\n' then dropReturn l.dropLast else l

/-- The text with these lines, each ended by a newline. -/
def unlines (ls : List Line) : List Char := ['\n'].intercalate ls ++ ['\n']

variable {l line : Line} {ls : List Line} {text : List Char}

theorem dropReturn_of_getLast? (h : l.getLast? ≠ some '\r') : dropReturn l = l := if_neg h

@[simp] theorem dropReturn_concat : dropReturn (l ++ ['\r']) = l := by
  simp [dropReturn]

theorem dropReturn_eq_self : dropReturn l = l ↔ l.getLast? ≠ some '\r' := by
  refine ⟨fun h hlast ↦ ?_, dropReturn_of_getLast?⟩
  rw [dropReturn, if_pos hlast] at h
  have hlength := congrArg List.length h
  rw [List.length_dropLast] at hlength
  cases l with
  | nil => cases hlast
  | cons c l => simp at hlength

/-- A line either has no carriage return at its end or loses exactly one. -/
theorem eq_dropReturn_or (l : Line) : l = dropReturn l ∨ l = dropReturn l ++ ['\r'] := by
  by_cases h : l.getLast? = some '\r'
  · obtain ⟨front, rfl⟩ := List.getLast?_eq_some_iff.mp h
    simp
  · exact .inl (dropReturn_of_getLast? h).symm

theorem mem_of_mem_dropReturn {c : Char} (h : c ∈ dropReturn l) : c ∈ l := by
  rcases eq_dropReturn_or l with heq | heq
  · rwa [heq]
  · rw [heq]
    exact List.mem_append_left _ h

theorem newline_not_mem_linesFrom (hline : '\n' ∉ line) :
    ∀ l ∈ linesFrom line text, '\n' ∉ l := by
  induction text generalizing line with
  | nil =>
      intro l hl
      rw [linesFrom] at hl
      split at hl
      · cases hl
      · rwa [List.mem_singleton.mp hl]
  | cons c text ih =>
      rw [linesFrom]
      split
      · intro l hl
        rcases List.mem_cons.mp hl with rfl | hl
        · exact fun hmem ↦ hline (mem_of_mem_dropReturn hmem)
        · exact ih List.not_mem_nil l hl
      case isFalse hc =>
        apply ih
        simp [hline, Ne.symm hc]

/-- No line contains a newline. -/
theorem newline_not_mem_lines : ∀ l ∈ lines text, '\n' ∉ l :=
  newline_not_mem_linesFrom List.not_mem_nil

theorem linesFrom_append (h : '\n' ∉ l) :
    linesFrom line (l ++ '\n' :: text) = dropReturn (line ++ l) :: lines text := by
  induction l generalizing line with
  | nil => simp [linesFrom, lines]
  | cons c l ih =>
      obtain ⟨hc, hl⟩ := not_or.mp (mt List.mem_cons.mpr h)
      rw [List.cons_append, linesFrom, if_neg (Ne.symm hc), ih hl]
      simp

theorem lines_append (h : '\n' ∉ l) : lines (l ++ '\n' :: text) = dropReturn l :: lines text :=
  linesFrom_append h

theorem unlines_cons_cons (l m : Line) (ls : List Line) :
    unlines (l :: m :: ls) = l ++ '\n' :: unlines (m :: ls) := by
  simp [unlines, List.intercalate, List.intersperse]

/-- Reading back what was joined loses the carriage returns at the lines' ends only. -/
theorem lines_unlines (hne : ls ≠ []) (h : ∀ l ∈ ls, '\n' ∉ l) :
    lines (unlines ls) = ls.map dropReturn := by
  induction ls with
  | nil => exact absurd rfl hne
  | cons l ls ih =>
      have hl : '\n' ∉ l := h l List.mem_cons_self
      cases ls with
      | nil =>
          have hone : unlines [l] = l ++ '\n' :: [] := by simp [unlines, List.intercalate]
          rw [hone, lines_append hl]
          rfl
      | cons m ls =>
          rw [unlines_cons_cons, lines_append hl,
            ih (List.cons_ne_nil _ _) fun x hx ↦ h x (List.mem_cons_of_mem _ hx)]
          rfl

/-! ## Lines with their ends -/

@[simp] theorem dropEnd_concat : dropEnd (l ++ ['\n']) = dropReturn l := by
  simp [dropEnd]

theorem dropEnd_of_notMem (h : '\n' ∉ l) : dropEnd l = l :=
  if_neg fun hlast ↦ h (List.mem_of_getLast? hlast)

/-- A line ends in a newline, with or without a carriage return, or is the last of its text. -/
theorem eq_dropEnd_append (l : Line) :
    l = dropEnd l ∨ l = dropEnd l ++ ['\n'] ∨ l = dropEnd l ++ ['\r', '\n'] := by
  by_cases h : l.getLast? = some '\n'
  · obtain ⟨front, rfl⟩ := List.getLast?_eq_some_iff.mp h
    rw [dropEnd_concat]
    rcases eq_dropReturn_or front with heq | heq
    · exact .inr (.inl (by rw [← heq]))
    · refine .inr (.inr ?_)
      conv_lhs => rw [heq]
      simp
  · exact .inl (if_neg h).symm

theorem map_dropEnd_wholeLinesFrom (hline : '\n' ∉ line) :
    (wholeLinesFrom line text).map dropEnd = linesFrom line text := by
  induction text generalizing line with
  | nil =>
      rw [wholeLinesFrom, linesFrom]
      split
      · rfl
      · rw [List.map_singleton, dropEnd_of_notMem hline]
  | cons c text ih =>
      rw [wholeLinesFrom, linesFrom]
      split
      · rw [List.map_cons, dropEnd_concat, ih List.not_mem_nil]
      case isFalse hc =>
        apply ih
        simp [hline, Ne.symm hc]

theorem map_dropEnd_wholeLines : (wholeLines text).map dropEnd = lines text :=
  map_dropEnd_wholeLinesFrom List.not_mem_nil

theorem wholeLinesFrom_append (h : '\n' ∉ l) :
    wholeLinesFrom line (l ++ '\n' :: text) = (line ++ l ++ ['\n']) :: wholeLines text := by
  induction l generalizing line with
  | nil => simp [wholeLinesFrom, wholeLines]
  | cons c l ih =>
      obtain ⟨hc, hl⟩ := not_or.mp (mt List.mem_cons.mpr h)
      rw [List.cons_append, wholeLinesFrom, if_neg (Ne.symm hc), ih hl]
      simp

/-- What was joined is read back as it was, with a newline at the end of each line. -/
theorem wholeLines_unlines (hne : ls ≠ []) (h : ∀ l ∈ ls, '\n' ∉ l) :
    wholeLines (unlines ls) = ls.map (· ++ ['\n']) := by
  induction ls with
  | nil => exact absurd rfl hne
  | cons l ls ih =>
      have hl : '\n' ∉ l := h l List.mem_cons_self
      cases ls with
      | nil =>
          have hone : unlines [l] = l ++ '\n' :: [] := by simp [unlines, List.intercalate]
          rw [hone, wholeLines, wholeLinesFrom_append hl]
          rfl
      | cons m ls =>
          rw [unlines_cons_cons, wholeLines, wholeLinesFrom_append hl,
            ih (List.cons_ne_nil m ls) fun l hl ↦ h l (List.mem_cons_of_mem _ hl)]
          rfl

end Text
