import ApiStarter.Services.Listings

/-!
# Searching users

The search text is trimmed, its backslashes, percents and underscores are
escaped, and the result is put between two percents.  Whatever it is made of, a
live user is found by it exactly when it occurs in the address or the display
name.
-/

namespace ApiStarter

open Relational Text

/-- The text occurs in the user's address or display name. -/
def User.contains (u : User) (q : String) : Prop :=
  q.toList <:+: u.email.toList ∨ ∃ name ∈ u.displayName, q.toList <:+: name.toList

section Escape

variable {c d : Char} {out input : List Char}

theorem replaceChar_cons (c : Char) (out : List Char) (d : Char) (input : List Char) :
    replaceChar c out (d :: input) =
      (if d = c then out else [d]) ++ replaceChar c out input := rfl

theorem replaceChar_append (c : Char) (out front back : List Char) :
    replaceChar c out (front ++ back) = replaceChar c out front ++ replaceChar c out back :=
  List.flatMap_append

/-- Backslashes are escaped first, so no backslash that escapes is escaped again. -/
theorem escapeLike_eq (input : List Char) : escapeLike input = escaped '\\' input := by
  induction input with
  | nil => rfl
  | cons d input ih =>
      have hcons : escaped '\\' (d :: input) =
          (if d = '\\' ∨ d = '%' ∨ d = '_' then ['\\', d] else [d]) ++ escaped '\\' input := rfl
      rw [hcons, ← ih, escapeLike, escapeLike, replaceChar_cons, replaceChar_append,
        replaceChar_append]
      congr 1
      by_cases hback : d = '\\'
      · subst hback
        decide
      · by_cases hpercent : d = '%'
        · subst hpercent
          decide
        · by_cases hunder : d = '_'
          · subst hunder
            decide
          · simp [hback, hpercent, hunder, replaceChar]

end Escape

/-- What `push_search` lets through. -/
theorem pushSearch_iff (search : Option String) (u : User) :
    pushSearch (search.map fun q ↦ '%' :: escapeLike q.toList ++ ['%']) u = true ↔
      ∀ q ∈ search, u.contains q := by
  cases search with
  | none => simp [pushSearch]
  | some q =>
      have hlike (s : String) :
          like '\\' ('%' :: escapeLike q.toList ++ ['%']) s.toList = some true ↔
            q.toList <:+: s.toList := by
        rw [escapeLike_eq]
        exact like_escaped (by decide) _ _
      rw [Option.map_some, pushSearch, Option.all_some, Bool.or_eq_true, decide_eq_true_eq, hlike]
      simp only [Option.mem_def, Option.some.injEq, forall_eq', User.contains]
      apply or_congr_right
      cases u.displayName with
      | none => simp
      | some name => simpa using hlike name

/-- The rows the select orders, before a page is cut out. -/
def sortedUsers (c : Collation) (search : Option String) (sort : UserSort) (order : SortOrder)
    (users : Table User.id) : List User :=
  (users.selectWhere fun u ↦ u.isLive &&
    pushSearch (search.map fun q ↦ '%' :: escapeLike q.toList ++ ['%']) u).insertionSort
      fun a b ↦ listedBefore c sort order a b = true

theorem list_fst (c : Collation) (filter : UserFilter) (users : Table User.id) :
    (UsersRepository.list c filter users).1 = window filter.limit filter.offset
      (sortedUsers c filter.search filter.sort filter.order users) := rfl

theorem mem_sortedUsers {c : Collation} {search : Option String} {sort : UserSort}
    {order : SortOrder} {users : Table User.id} {u : User} :
    u ∈ sortedUsers c search sort order users ↔
      u ∈ users ∧ u.isLive = true ∧ ∀ q ∈ search, u.contains q := by
  rw [sortedUsers, List.mem_insertionSort, Table.mem_selectWhere, Bool.and_eq_true,
    pushSearch_iff]

/-- A search for a text that is not blank lists, on some page, exactly the live users whose address
or display name contains the trimmed text. -/
theorem mem_list_iff_contains (c : Collation) (query : ListUsersQuery) (raw : String)
    (users : Table User.id) (hq : query.q = some raw)
    (hblank : strip isWhitespace raw.toList ≠ []) (u : User) :
    (∃ limit offset, u ∈ (UsersRepository.list c
        { query.filter with limit := limit, offset := offset } users).1) ↔
      u ∈ users ∧ u.isLive = true ∧ u.contains (String.ofList (strip isWhitespace raw.toList)) := by
  have hsearch : query.filter.search =
      some (String.ofList (strip isWhitespace raw.toList)) := by
    simp [ListUsersQuery.filter, ListUsersQuery.search, hq, hblank]
  simp only [list_fst]
  rw [exists_mem_window, mem_sortedUsers, hsearch]
  simp

namespace SearchSample

/-- An account with wildcards in its address. -/
def discount : User where
  id := 1
  email := "50%_off\\@shop"
  passwordHash := ""
  displayName := none
  role := .user
  isActive := true
  emailVerifiedAt := none
  createdAt := 0
  updatedAt := none
  deletedAt := none
  avatarKey := none
  passwordSet := true
  tokenVersion := 0
  failedLoginAttempts := 0
  lockedUntil := none
  totpSecret := none
  totpEnabled := false

/-- With one row there is nothing to order. -/
def flat : Collation := ⟨fun _ _ ↦ true, fun _ _ ↦ .inl rfl, fun _ _ _ _ _ ↦ rfl⟩

def query (q : String) : ListUsersQuery := ⟨none, none, some q, none, none⟩

end SearchSample

open SearchSample in
theorem mem_list_wildcards : ∃ limit offset, discount ∈ (UsersRepository.list flat
    { (query " %_off\\ ").filter with limit := limit, offset := offset }
    (Table.single discount)).1 := by
  apply (mem_list_iff_contains flat (query " %_off\\ ") " %_off\\ " _ rfl (by decide) _).mpr
  refine ⟨List.mem_singleton_self _, rfl, .inl ?_⟩
  decide

end ApiStarter
