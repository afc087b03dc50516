import Mathlib.Data.List.Infix

/-!
# LIKE patterns

A pattern is read once into tokens, in which the escape character makes the next
one literal, and the tokens are matched against a subject.  Escaping a text and
putting `%` around it gives the pattern that finds the text anywhere.
-/

namespace Text

inductive LikeToken
  | literal (c : Char)
  /-- `_` -/
  | anyChar
  /-- `%` -/
  | anyString

/-- What a character other than the escape character stands for. -/
def likeToken (c : Char) : LikeToken :=
  if c = '%' then .anyString else if c = '_' then .anyChar else .literal c

/-- The tokens of a pattern, `none` for one that ends in the escape character. -/
def likeTokens (escape : Char) : List Char → Option (List LikeToken)
  | [] => some []
  | [c] => if c = escape then none else some [likeToken c]
  | c :: d :: pattern =>
      if c = escape then (likeTokens escape pattern).map (.literal d :: ·)
      else (likeTokens escape (d :: pattern)).map (likeToken c :: ·)

def likeMatches : List LikeToken → List Char → Bool
  | [], s => s.isEmpty
  | .literal c :: tokens, s => s.head? = some c && likeMatches tokens s.tail
  | .anyChar :: tokens, s => !s.isEmpty && likeMatches tokens s.tail
  | .anyString :: tokens, s => s.tails.any (likeMatches tokens)

/-- `s LIKE pattern ESCAPE escape` -/
def like (escape : Char) (pattern s : List Char) : Option Bool :=
  (likeTokens escape pattern).map fun tokens ↦ likeMatches tokens s

/-- The text with the escape character before each of its special characters. -/
def escaped (escape : Char) (text : List Char) : List Char :=
  text.flatMap fun c ↦ if c = escape ∨ c = '%' ∨ c = '_' then [escape, c] else [c]

variable {escape c : Char} {text s pattern : List Char} {tokens : List LikeToken}

theorem likeTokens_escape (c : Char) (pattern : List Char) :
    likeTokens escape (escape :: c :: pattern) =
      (likeTokens escape pattern).map (.literal c :: ·) := by
  rw [likeTokens, if_pos rfl]

theorem likeTokens_cons (hc : c ≠ escape) (pattern : List Char) :
    likeTokens escape (c :: pattern) = (likeTokens escape pattern).map (likeToken c :: ·) := by
  cases pattern with
  | nil => simp [likeTokens, hc]
  | cons d pattern => rw [likeTokens, if_neg hc]

theorem likeToken_of_ne (hp : c ≠ '%') (hu : c ≠ '_') : likeToken c = .literal c := by
  rw [likeToken, if_neg hp, if_neg hu]

/-- Escaped text is read as itself. -/
theorem likeTokens_escaped (text pattern : List Char) :
    likeTokens escape (escaped escape text ++ pattern) =
      (likeTokens escape pattern).map (text.map .literal ++ ·) := by
  induction text with
  | nil => simp [escaped]
  | cons c text ih =>
      have hstep : ∀ front, front ++ escaped escape text ++ pattern =
          front ++ (escaped escape text ++ pattern) := fun front ↦ List.append_assoc _ _ _
      have hhead : escaped escape (c :: text) =
          (if c = escape ∨ c = '%' ∨ c = '_' then [escape, c] else [c]) ++ escaped escape text :=
        rfl
      rw [hhead, hstep]
      split
      · rw [List.cons_append, List.cons_append, List.nil_append, likeTokens_escape, ih]
        cases likeTokens escape pattern <;> rfl
      case isFalse hplain =>
        obtain ⟨hc, hp, hu⟩ : c ≠ escape ∧ c ≠ '%' ∧ c ≠ '_' := by simpa using hplain
        rw [List.cons_append, List.nil_append, likeTokens_cons hc, likeToken_of_ne hp hu, ih]
        cases likeTokens escape pattern <;> rfl

theorem likeMatches_literals : likeMatches (text.map .literal ++ tokens) s = true ↔
    ∃ rest, s = text ++ rest ∧ likeMatches tokens rest = true := by
  induction text generalizing s with
  | nil => simp
  | cons c text ih =>
      rw [List.map_cons, List.cons_append, likeMatches, Bool.and_eq_true, ih]
      cases s with
      | nil => simp
      | cons d s =>
          simp only [List.head?_cons, Option.some.injEq, decide_eq_true_eq, List.tail_cons,
            List.cons_append, List.cons.injEq]
          constructor
          · rintro ⟨rfl, rest, rfl, hrest⟩
            exact ⟨rest, ⟨rfl, rfl⟩, hrest⟩
          · rintro ⟨rest, ⟨rfl, rfl⟩, hrest⟩
            exact ⟨rfl, rest, rfl, hrest⟩

theorem likeMatches_anyString : likeMatches (.anyString :: tokens) s = true ↔
    ∃ rest, rest <:+ s ∧ likeMatches tokens rest = true := by
  simp [likeMatches, List.mem_tails]

theorem likeMatches_anyString_nil : likeMatches [.anyString] s = true := by
  rw [likeMatches_anyString]
  exact ⟨[], List.nil_suffix, rfl⟩

/-- Between two `%` an escaped text matches the subjects that contain it. -/
theorem like_escaped (hp : escape ≠ '%') (text s : List Char) :
    like escape ('%' :: escaped escape text ++ ['%']) s = some true ↔ text <:+: s := by
  have hpercent : ∀ pattern, likeTokens escape ('%' :: pattern) =
      (likeTokens escape pattern).map (.anyString :: ·) := fun pattern ↦ likeTokens_cons hp.symm _
  rw [like, List.cons_append, hpercent, likeTokens_escaped, hpercent]
  simp only [likeTokens, Option.map_some, Option.some.injEq]
  rw [likeMatches_anyString]
  constructor
  · rintro ⟨rest, ⟨front, rfl⟩, hrest⟩
    obtain ⟨back, rfl, -⟩ := likeMatches_literals.mp hrest
    exact ⟨front, back, by simp⟩
  · rintro ⟨front, back, rfl⟩
    refine ⟨text ++ back, ⟨front, by simp⟩, ?_⟩
    exact likeMatches_literals.mpr ⟨back, rfl, likeMatches_anyString_nil⟩

end Text
