import Mathlib.Data.List.Nodup
import Mathlib.Data.List.Sort

/-!
# Tables with a key

A table is a list of rows no two of which share a key, so a primary key or a
`UNIQUE` constraint is part of the type and a duplicate cannot be built.  The
operations are the statements of a relational store: insert, select, update and
delete by a condition on the row.
-/

namespace Relational

variable {α κ : Type}

structure Table (key : α → κ) where
  rows : List α
  nodup : (rows.map key).Nodup

namespace Table

variable {key : α → κ}

instance : Membership α (Table key) := ⟨fun t r ↦ r ∈ t.rows⟩

theorem mem_def {t : Table key} {r : α} : r ∈ t ↔ r ∈ t.rows := Iff.rfl

def empty : Table key := ⟨[], List.nodup_nil⟩

def single (r : α) : Table key := ⟨[r], by simp⟩

/-- `SELECT … WHERE p` -/
def selectWhere (t : Table key) (p : α → Bool) : List α := t.rows.filter p

/-- `ORDER BY f` -/
def orderBy (f : α → ℤ) (rows : List α) : List α := rows.insertionSort fun a b ↦ f a ≤ f b

/-- `SELECT … WHERE p`, at most one row expected. -/
def find? (t : Table key) (p : α → Bool) : Option α := t.rows.find? p

/-- How many rows a statement with this condition touches. -/
def countWhere (t : Table key) (p : α → Bool) : ℕ := t.rows.countP p

/-- `UPDATE … SET f WHERE p`, for an `f` that leaves the key alone. -/
def updateWhere (t : Table key) (p : α → Bool) (f : α → α) (hf : ∀ r, key (f r) = key r) :
    Table key where
  rows := t.rows.map fun r ↦ if p r then f r else r
  nodup := by
    have hkey : (key ∘ fun r ↦ if p r then f r else r) = key := by
      funext r
      by_cases h : p r <;> simp [h, hf]
    rw [List.map_map, hkey]
    exact t.nodup

/-- The row in place of the one with its key, or added. -/
def put [DecidableEq κ] (t : Table key) (r : α) : Table key where
  rows := r :: t.rows.filter fun r' ↦ decide (key r' ≠ key r)
  nodup := by
    have hnew : key r ∉ (t.rows.filter fun r' ↦ decide (key r' ≠ key r)).map key := by
      simp
    exact List.nodup_cons.mpr ⟨hnew, t.nodup.sublist (List.filter_sublist.map key)⟩

/-- `DELETE … WHERE p` -/
def deleteWhere (t : Table key) (p : α → Bool) : Table key where
  rows := t.rows.filter fun r ↦ !p r
  nodup := t.nodup.sublist (List.filter_sublist.map key)

theorem eq_of_mem {t : Table key} {r r' : α} (h : r ∈ t) (h' : r' ∈ t)
    (hkey : key r = key r') : r = r' :=
  List.inj_on_of_nodup_map t.nodup h h' hkey

/-- A table has at least as many rows as distinct keys are found in it. -/
theorem length_le_of_keys {t : Table key} {ks : List κ} (hks : ks.Nodup)
    (h : ∀ k ∈ ks, ∃ r ∈ t, key r = k) : ks.length ≤ t.rows.length := by
  have hsub : ks ⊆ t.rows.map key := fun k hk ↦ List.mem_map.mpr (h k hk)
  simpa using (List.subperm_of_subset hks hsub).length_le

/-- A table has at most as many rows as there are keys its rows may have. -/
theorem length_le_of_mem {t : Table key} {ks : List κ} (h : ∀ r ∈ t, key r ∈ ks) :
    t.rows.length ≤ ks.length := by
  have hsub : t.rows.map key ⊆ ks := List.forall_mem_map.mpr h
  simpa using (List.subperm_of_subset t.nodup hsub).length_le

@[simp] theorem mem_updateWhere {t : Table key} {p : α → Bool} {f : α → α}
    {hf : ∀ r, key (f r) = key r} {r : α} :
    r ∈ t.updateWhere p f hf ↔ ∃ r₀ ∈ t, (if p r₀ then f r₀ else r₀) = r := List.mem_map

@[simp] theorem mem_deleteWhere {t : Table key} {p : α → Bool} {r : α} :
    r ∈ t.deleteWhere p ↔ r ∈ t ∧ p r = false := by
  simp [mem_def, deleteWhere]

@[simp] theorem mem_selectWhere {t : Table key} {p : α → Bool} {r : α} :
    r ∈ t.selectWhere p ↔ r ∈ t ∧ p r = true := List.mem_filter

@[simp] theorem mem_orderBy {f : α → ℤ} {rows : List α} {r : α} :
    r ∈ orderBy f rows ↔ r ∈ rows := List.mem_insertionSort _

/-- Tables with the same rows among those selected. -/
theorem selectWhere_perm {t t' : Table key} {p : α → Bool}
    (h : ∀ r, p r = true → (r ∈ t ↔ r ∈ t')) : (t.selectWhere p).Perm (t'.selectWhere p) := by
  apply (List.perm_ext_iff_of_nodup (t.nodup.of_map.filter p) (t'.nodup.of_map.filter p)).mpr
  intro r
  simp only [List.mem_filter]
  exact and_congr_left fun hp ↦ h r hp

theorem countWhere_congr {t t' : Table key} {p : α → Bool}
    (h : ∀ r, p r = true → (r ∈ t ↔ r ∈ t')) : t.countWhere p = t'.countWhere p := by
  unfold countWhere
  rw [List.countP_eq_length_filter, List.countP_eq_length_filter]
  exact (selectWhere_perm h).length_eq

theorem countWhere_pos {t : Table key} {p : α → Bool} :
    0 < t.countWhere p ↔ ∃ r ∈ t, p r = true := List.countP_pos_iff

theorem countWhere_eq_zero {t : Table key} {p : α → Bool} :
    t.countWhere p = 0 ↔ ∀ r ∈ t, p r = false := by
  simp [countWhere, List.countP_eq_zero, mem_def]

/-- An update that counts for nothing in the rows it changes. -/
theorem countWhere_updateWhere_of_eq {t : Table key} {p q : α → Bool} {f : α → α}
    {hf : ∀ r, key (f r) = key r} (hp : ∀ r, q r = true → p (f r) = p r) :
    (t.updateWhere q f hf).countWhere p = t.countWhere p := by
  simp only [countWhere, updateWhere, List.countP_map]
  refine List.countP_congr fun r _ ↦ ?_
  by_cases hq : q r
  · simp [hq, hp r hq]
  · simp [hq]

theorem countWhere_updateWhere {t : Table key} {p q : α → Bool} {f : α → α}
    {hf : ∀ r, key (f r) = key r} (hp : ∀ r, p (f r) = p r) :
    (t.updateWhere q f hf).countWhere p = t.countWhere p :=
  countWhere_updateWhere_of_eq fun r _ ↦ hp r

/-- An update after which its rows are not counted any more. -/
theorem countWhere_updateWhere_add {t : Table key} {p q : α → Bool} {f : α → α}
    {hf : ∀ r, key (f r) = key r} (hq : ∀ r, q r = true → p r = true)
    (hp : ∀ r, q r = true → p (f r) = false) :
    (t.updateWhere q f hf).countWhere p + t.countWhere q = t.countWhere p := by
  simp only [countWhere, updateWhere, List.countP_map]
  induction t.rows with
  | nil => rfl
  | cons r rows ih =>
      simp only [List.countP_cons, Function.comp_apply]
      by_cases hqr : q r = true
      · simp only [if_pos hqr, hq r hqr, hp r hqr, Bool.false_eq_true, if_false, if_true]
        omega
      · simp only [if_neg hqr]
        omega

/-- The rows a condition counts are those deleted and those left. -/
theorem countWhere_deleteWhere_add (t : Table key) (p q : α → Bool) :
    (t.deleteWhere q).countWhere p + t.countWhere (fun r ↦ p r && q r) = t.countWhere p := by
  simp only [countWhere, deleteWhere, List.countP_filter]
  induction t.rows with
  | nil => rfl
  | cons r rows ih =>
      cases hp : p r <;> cases hq : q r <;> simp_all <;> omega

theorem find?_eq_some {t : Table key} {p : α → Bool} {r : α} (h : t.find? p = some r) :
    r ∈ t ∧ p r = true := ⟨List.mem_of_find?_eq_some h, List.find?_some h⟩

theorem find?_eq_none {t : Table key} {p : α → Bool} :
    t.find? p = none ↔ ∀ r ∈ t, p r = false := by
  simp [find?, mem_def]

/-- An update that keeps a condition finds the same row, updated or not. -/
theorem find?_updateWhere (t : Table key) (q : α → Bool) (f : α → α) (hf : ∀ r, key (f r) = key r)
    {p : α → Bool} (hp : ∀ r, p (f r) = p r) :
    (t.updateWhere q f hf).find? p = (t.find? p).map fun r ↦ if q r then f r else r := by
  simp only [find?, updateWhere, List.find?_map]
  refine congrArg (Option.map _) (congrArg (List.find? · t.rows) (funext fun r ↦ ?_))
  by_cases hq : q r <;> simp [hq, hp]

section Key

variable [DecidableEq κ]

/-- The row with key `k`. -/
def get? (t : Table key) (k : κ) : Option α := t.find? fun r ↦ decide (key r = k)

theorem mem_put {t : Table key} {r r' : α} :
    r' ∈ t.put r ↔ r' = r ∨ r' ∈ t ∧ key r' ≠ key r := by
  simp [mem_def, put]

/-- `INSERT`; `none` when the key is taken. -/
def insert? (t : Table key) (r : α) : Option (Table key) :=
  if h : key r ∈ t.rows.map key then none
  else some ⟨t.rows ++ [r], by
    rw [List.map_append, List.map_singleton, List.nodup_append]
    exact ⟨t.nodup, List.nodup_singleton _, by
      rintro a ha b hb rfl
      exact h (List.mem_singleton.mp hb ▸ ha)⟩⟩

theorem get?_eq_some_iff {t : Table key} {k : κ} {r : α} :
    t.get? k = some r ↔ r ∈ t ∧ key r = k := by
  constructor
  · intro h
    obtain ⟨hmem, hkey⟩ := find?_eq_some h
    exact ⟨hmem, of_decide_eq_true hkey⟩
  · rintro ⟨hmem, rfl⟩
    cases hfind : t.get? (key r) with
    | none => simpa using find?_eq_none.mp hfind r hmem
    | some r' =>
        obtain ⟨hmem', hkey'⟩ := find?_eq_some hfind
        rw [eq_of_mem hmem' hmem (of_decide_eq_true hkey')]

theorem get?_of_mem {t : Table key} {r : α} (h : r ∈ t) : t.get? (key r) = some r :=
  get?_eq_some_iff.mpr ⟨h, rfl⟩

theorem get?_eq_none_iff {t : Table key} {k : κ} :
    t.get? k = none ↔ ∀ r ∈ t, key r ≠ k := by
  simp [get?, find?_eq_none]

theorem mem_of_get? {t : Table key} {k : κ} {r : α} (h : t.get? k = some r) : r ∈ t :=
  (get?_eq_some_iff.mp h).1

theorem key_of_get? {t : Table key} {k : κ} {r : α} (h : t.get? k = some r) : key r = k :=
  (get?_eq_some_iff.mp h).2

@[simp] theorem get?_empty (k : κ) : (empty : Table key).get? k = none := rfl

theorem get?_updateWhere (t : Table key) (p : α → Bool) (f : α → α)
    (hf : ∀ r, key (f r) = key r) (k : κ) :
    (t.updateWhere p f hf).get? k = (t.get? k).map fun r ↦ if p r then f r else r := by
  cases h : t.get? k with
  | none =>
      rw [Option.map_none, get?_eq_none_iff]
      rintro _ hr rfl
      obtain ⟨r, hmem, rfl⟩ := mem_updateWhere.mp hr
      refine get?_eq_none_iff.mp h r hmem ?_
      by_cases hp : p r <;> simp [hp, hf]
  | some r =>
      obtain ⟨hmem, rfl⟩ := get?_eq_some_iff.mp h
      rw [Option.map_some, get?_eq_some_iff]
      refine ⟨mem_updateWhere.mpr ⟨r, hmem, rfl⟩, ?_⟩
      by_cases hp : p r <;> simp [hp, hf]

theorem get?_updateWhere_some {t : Table key} {p : α → Bool} {f : α → α}
    {hf : ∀ r, key (f r) = key r} {k : κ} {r : α} (h : t.get? k = some r) :
    (t.updateWhere p f hf).get? k = some (if p r then f r else r) := by
  rw [get?_updateWhere, h, Option.map_some]

theorem get?_updateWhere_none {t : Table key} {p : α → Bool} {f : α → α}
    {hf : ∀ r, key (f r) = key r} {k : κ} (h : t.get? k = none) :
    (t.updateWhere p f hf).get? k = none := by
  rw [get?_updateWhere, h, Option.map_none]

/-- An update whose condition fixes the key leaves the other rows alone. -/
theorem get?_updateKey (t : Table key) (k : κ) (f : α → α) (hf : ∀ r, key (f r) = key r)
    (k' : κ) : (t.updateWhere (fun r ↦ decide (key r = k)) f hf).get? k' =
      if k = k' then (t.get? k').map f else t.get? k' := by
  rw [get?_updateWhere]
  cases h : t.get? k' with
  | none => simp
  | some r =>
      obtain rfl := key_of_get? h
      by_cases heq : key r = k
      · simp [heq]
      · simp [heq, Ne.symm heq]

theorem get?_deleteWhere (t : Table key) (p : α → Bool) (k : κ) :
    (t.deleteWhere p).get? k = (t.get? k).filter fun r ↦ !p r := by
  cases h : t.get? k with
  | none =>
      rw [Option.filter_none, get?_eq_none_iff]
      intro r hr
      exact get?_eq_none_iff.mp h r (mem_deleteWhere.mp hr).1
  | some r =>
      obtain ⟨hmem, rfl⟩ := get?_eq_some_iff.mp h
      cases hp : p r with
      | false =>
          rw [Option.filter_some, hp]
          exact get?_of_mem (mem_deleteWhere.mpr ⟨hmem, hp⟩)
      | true =>
          rw [Option.filter_some, hp]
          refine get?_eq_none_iff.mpr fun r' hr' hkey ↦ ?_
          obtain ⟨hmem', hp'⟩ := mem_deleteWhere.mp hr'
          rw [eq_of_mem hmem' hmem hkey, hp] at hp'
          cases hp'

theorem get?_of_get?_deleteWhere {t : Table key} {p : α → Bool} {k : κ} {r : α}
    (h : (t.deleteWhere p).get? k = some r) : t.get? k = some r := by
  rw [get?_deleteWhere] at h
  exact (Option.filter_eq_some_iff.mp h).1

theorem insert?_eq_some {t t' : Table key} {r : α} (h : t.insert? r = some t') :
    t.get? (key r) = none ∧ ∀ k, t'.get? k = if key r = k then some r else t.get? k := by
  unfold insert? at h
  split at h
  · cases h
  · next hnew =>
    cases h
    have hnone : t.get? (key r) = none := by
      refine get?_eq_none_iff.mpr fun r' hr' hkey ↦ hnew ?_
      exact hkey ▸ List.mem_map_of_mem hr'
    refine ⟨hnone, fun k ↦ ?_⟩
    by_cases hk : key r = k
    · subst hk
      rw [if_pos rfl, get?_eq_some_iff]
      exact ⟨List.mem_append_right _ (List.mem_singleton.mpr rfl), rfl⟩
    · simp [get?, find?, List.find?_append, hk]

/-- An insertion leaves the rows that are there. -/
theorem get?_insert?_of_some {t t' : Table key} {r r' : α} {k : κ} (h : t.insert? r = some t')
    (hk : t.get? k = some r') : t'.get? k = some r' := by
  obtain ⟨hnone, hget⟩ := insert?_eq_some h
  rw [hget, if_neg, hk]
  rintro rfl
  simp [hnone] at hk

theorem insert?_eq_none {t : Table key} {r : α} :
    t.insert? r = none ↔ (t.get? (key r)).isSome := by
  unfold insert?
  split
  · next h =>
    obtain ⟨r', hr', hkey⟩ := List.mem_map.mp h
    have hget : t.get? (key r) = some r' := get?_eq_some_iff.mpr ⟨hr', hkey⟩
    simp [hget]
  · next h =>
    have hnone : t.get? (key r) = none := by
      refine get?_eq_none_iff.mpr fun r' hr' hkey ↦ h ?_
      exact hkey ▸ List.mem_map_of_mem hr'
    simp [hnone]

theorem mem_insert? {t t' : Table key} {r r' : α} (h : t.insert? r = some t') :
    r' ∈ t' ↔ r' ∈ t ∨ r' = r := by
  unfold insert? at h
  split at h
  · cases h
  · cases h
    simp [mem_def]

theorem countWhere_insert? {t t' : Table key} {r : α} (h : t.insert? r = some t')
    (p : α → Bool) : t'.countWhere p = t.countWhere p + if p r then 1 else 0 := by
  unfold insert? at h
  split at h
  · cases h
  · cases h
    simp [countWhere]

theorem countWhere_insert?_le {t t' : Table key} {r : α} (h : t.insert? r = some t')
    (p : α → Bool) : t.countWhere p ≤ t'.countWhere p := by
  rw [countWhere_insert? h]
  omega

/-- A condition that fixes the key finds that row or nothing. -/
theorem find?_key (t : Table key) (k : κ) (p : α → Bool) :
    (t.find? fun r ↦ decide (key r = k) && p r) = (t.get? k).filter p := by
  cases h : t.get? k with
  | none =>
      rw [Option.filter_none, find?_eq_none]
      intro r hr
      simp [get?_eq_none_iff.mp h r hr]
  | some r =>
      obtain ⟨hmem, rfl⟩ := get?_eq_some_iff.mp h
      cases hfind : t.find? (fun r' ↦ decide (key r' = key r) && p r') with
      | none =>
          have hp : p r = false := by simpa using find?_eq_none.mp hfind r hmem
          rw [Option.filter_some, hp]
          rfl
      | some r' =>
          obtain ⟨hmem', hboth⟩ := find?_eq_some hfind
          obtain ⟨hkey, hp⟩ := (Bool.and_eq_true_iff ..).mp hboth
          obtain rfl := eq_of_mem hmem' hmem (of_decide_eq_true hkey)
          rw [Option.filter_some, if_pos hp]

/-- A statement whose condition fixes the key touches at most one row. -/
theorem countWhere_key (t : Table key) (k : κ) (p : α → Bool) :
    t.countWhere (fun r ↦ decide (key r = k) && p r) = if (t.get? k).any p then 1 else 0 := by
  have hle : t.countWhere (fun r ↦ decide (key r = k) && p r) ≤ 1 := by
    calc
      t.countWhere (fun r ↦ decide (key r = k) && p r)
          ≤ t.rows.countP (fun r ↦ decide (key r = k)) :=
        List.countP_mono_left fun r _ h ↦ ((Bool.and_eq_true _ _).mp h).1
      _ = (t.rows.map key).count k := by
        simp [List.count, List.countP_map, Function.comp_def, beq_eq_decide]
      _ ≤ 1 := List.nodup_iff_count_le_one.mp t.nodup k
  split
  · next h =>
    obtain ⟨r, hget, hp⟩ : ∃ r, t.get? k = some r ∧ p r = true := by
      cases hget : t.get? k with
      | none => simp [hget] at h
      | some r => exact ⟨r, rfl, by simpa [hget] using h⟩
    obtain ⟨hmem, hkey⟩ := get?_eq_some_iff.mp hget
    have hboth : (decide (key r = k) && p r) = true := by simp [hkey, hp]
    have hpos : 0 < t.countWhere fun r ↦ decide (key r = k) && p r :=
      countWhere_pos.mpr ⟨r, hmem, hboth⟩
    omega
  · next h =>
    refine countWhere_eq_zero.mpr fun r hr ↦ ?_
    by_contra hne
    simp only [Bool.not_eq_false, Bool.and_eq_true, decide_eq_true_eq] at hne
    apply h
    rw [get?_eq_some_iff.mpr ⟨hr, hne.1⟩]
    simpa using hne.2

end Key

end Table

end Relational
