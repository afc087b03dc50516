import ApiStarter.Relational.Table

/-!
# Pages of an ordered result

`ORDER BY` with a unique last column leaves no choice, so `LIMIT` and `OFFSET`
cut one and the same list however the rows happen to lie.  Cut at multiples of
one length, the pieces join to the whole.
-/

namespace Relational

variable {α β κ : Type} {key : α → κ}

/-- The same rows, in whatever order they lie each time the table is read. -/
structure Views (key : α → κ) where
  view : ℕ → Table key
  same : ∀ i r, r ∈ view i ↔ r ∈ view 0

/-- `LIMIT limit OFFSET offset` -/
def window (limit offset : ℕ) (rows : List α) : List α := (rows.drop offset).take limit

/-- The items of the pages 1 to `n`. -/
def firstPages (pages : ℕ → List β) (n : ℕ) : List β :=
  (List.range n).flatMap fun i ↦ pages (i + 1)

/-- The pages 1 to `last` are `all`, cut after every `perPage` items. -/
structure PagesThrough (pages : ℕ → List β) (perPage last : ℕ) (all : List β) : Prop where
  joined : ∀ n ≤ last, firstPages pages n = all.take (n * perPage)
  complete : all.length ≤ last * perPage → firstPages pages last = all
  full : ∀ n m, 1 ≤ n → n < m → m ≤ last → pages m ≠ [] → (pages n).length = perPage
  past : ∀ n, 1 ≤ n → n ≤ last → all.length ≤ (n - 1) * perPage → pages n = []

theorem firstPages_succ (pages : ℕ → List β) (n : ℕ) :
    firstPages pages (n + 1) = firstPages pages n ++ pages (n + 1) := by
  simp [firstPages, List.range_succ]

theorem window_eq_nil {limit offset : ℕ} {rows : List α} (h : rows.length ≤ offset) :
    window limit offset rows = [] := by
  rw [window, List.drop_eq_nil_of_le h, List.take_nil]

theorem length_window {limit offset : ℕ} {rows : List α} :
    (window limit offset rows).length = min limit (rows.length - offset) := by
  rw [window, List.length_take, List.length_drop]

/-- Every row is in some window. -/
theorem exists_mem_window {a : α} {rows : List α} :
    (∃ limit offset, a ∈ window limit offset rows) ↔ a ∈ rows := by
  constructor
  · rintro ⟨limit, offset, ha⟩
    exact List.mem_of_mem_drop (List.mem_of_mem_take ha)
  · intro ha
    exact ⟨rows.length, 0, by simpa [window] using ha⟩

theorem map_window (f : α → β) (limit offset : ℕ) (rows : List α) :
    (window limit offset rows).map f = window limit offset (rows.map f) := by
  simp [window, List.map_take, List.map_drop]

/-- Consecutive windows join to what precedes the next one. -/
theorem firstPages_window {pages : ℕ → List β} {perPage last : ℕ} {all : List β}
    (h : ∀ n, 1 ≤ n → n ≤ last → pages n = window perPage ((n - 1) * perPage) all) (n : ℕ)
    (hn : n ≤ last) : firstPages pages n = all.take (n * perPage) := by
  induction n with
  | zero => simp [firstPages]
  | succ n ih =>
      have hpage := h (n + 1) (by omega) hn
      rw [firstPages_succ, ih (by omega), hpage, Nat.add_sub_cancel, window, Nat.succ_mul,
        List.take_add]

theorem pagesThrough_of_window {pages : ℕ → List β} {perPage last : ℕ} {all : List β}
    (h : ∀ n, 1 ≤ n → n ≤ last → pages n = window perPage ((n - 1) * perPage) all) :
    PagesThrough pages perPage last all where
  joined := firstPages_window h
  complete hlength := by
    rw [firstPages_window h last (Nat.le_refl _), List.take_of_length_le hlength]
  full n m hn hnm hm hne := by
    have hstart : (m - 1) * perPage < all.length := by
      by_contra hpast
      exact hne ((h m (by omega) hm).trans (window_eq_nil (by omega)))
    have hnext : (n - 1) * perPage + perPage ≤ (m - 1) * perPage := by
      rw [← Nat.succ_mul]
      exact Nat.mul_le_mul_right _ (by omega)
    rw [h n hn (by omega), length_window]
    omega
  past n hn hlast hlength := (h n hn hlast).trans (window_eq_nil hlength)

theorem Views.selectWhere_perm (t : Views key) (p : α → Bool) (i : ℕ) :
    ((t.view i).selectWhere p).Perm ((t.view 0).selectWhere p) :=
  Table.selectWhere_perm fun r _ ↦ t.same i r

/-- An order in which no two rows share a place lists every view of a table in one way. -/
theorem Views.exists_sorted (t : Views key) (p : α → Bool) (r : α → α → Prop) [DecidableRel r]
    [Std.Total r] [IsTrans α r] (hkey : ∀ a b, r a b → r b a → key a = key b) :
    ∃ all : List α, all.Nodup ∧ (∀ a, a ∈ all ↔ a ∈ t.view 0 ∧ p a = true) ∧
      all.Pairwise (fun a b ↦ r a b ∧ ¬r b a) ∧
      ∀ i, ((t.view i).selectWhere p).insertionSort r = all ∧
        (t.view i).countWhere p = all.length := by
  have hperm : ∀ i, (((t.view i).selectWhere p).insertionSort r).Perm
      ((t.view 0).selectWhere p) :=
    fun i ↦ (List.perm_insertionSort r _).trans (t.selectWhere_perm p i)
  have hmem : ∀ {i a}, a ∈ ((t.view i).selectWhere p).insertionSort r → a ∈ t.view 0 :=
    fun ha ↦ (Table.mem_selectWhere.mp ((hperm _).mem_iff.mp ha)).1
  have hnodup : (((t.view 0).selectWhere p).insertionSort r).Nodup :=
    (hperm 0).nodup_iff.mpr ((t.view 0).nodup.of_map.filter p)
  refine ⟨((t.view 0).selectWhere p).insertionSort r, hnodup, ?_, ?_, fun i ↦ ⟨?_, ?_⟩⟩
  · intro a
    rw [(hperm 0).mem_iff, Table.mem_selectWhere]
  · apply List.Pairwise.imp_of_mem ?_ ((List.pairwise_insertionSort r _).and hnodup)
    rintro a b ha hb ⟨hab, hne⟩
    exact ⟨hab, fun hba ↦ hne (Table.eq_of_mem (hmem ha) (hmem hb) (hkey a b hab hba))⟩
  · apply List.Perm.eq_of_pairwise ?_ (List.pairwise_insertionSort r _)
      (List.pairwise_insertionSort r _) ((hperm i).trans (hperm 0).symm)
    intro a b ha hb hab hba
    exact Table.eq_of_mem (hmem ha) (hmem hb) (hkey a b hab hba)
  · rw [(List.perm_insertionSort r _).length_eq, Table.countWhere, List.countP_eq_length_filter]
    exact (t.selectWhere_perm p i).length_eq

end Relational
