import ApiStarter.Relational.Table

/-!
# Tables without some of their stale rows

Two tables that differ only in rows some statement may have deleted early.
What never looks at a stale row answers alike on both, and leaves two tables
that differ in stale rows only.
-/

namespace Relational

/-- Where the rows left out fail the condition, leaving them out does not show. -/
theorem filter_eq_of_sublist {α : Type} {p : α → Bool} {l l' : List α} (h : l'.Sublist l)
    (hl : l.Nodup) (hp : ∀ r ∈ l, r ∉ l' → p r = false) : l'.filter p = l.filter p := by
  induction h with
  | slnil => rfl
  | @cons l' l a h ih =>
      obtain ⟨ha, hl⟩ := List.nodup_cons.mp hl
      have hfalse : p a = false := hp a (by simp) fun hmem ↦ ha (h.subset hmem)
      rw [List.filter_cons_of_neg (by simp [hfalse])]
      exact ih hl fun r hr ↦ hp r (List.mem_cons_of_mem _ hr)
  | @cons_cons l' l a h ih =>
      obtain ⟨ha, hl⟩ := List.nodup_cons.mp hl
      have htail : l'.filter p = l.filter p := by
        apply ih hl
        intro r hr hmissing
        apply hp r (List.mem_cons_of_mem _ hr)
        simp only [List.mem_cons, not_or]
        exact ⟨fun heq ↦ ha (heq ▸ hr), hmissing⟩
      simp only [List.filter_cons, htail]

namespace Table

variable {α κ : Type} {key : α → κ}

theorem rows_nodup (t : Table key) : t.rows.Nodup := t.nodup.of_map

/-- `t'` is `t` without some of its stale rows. -/
structure Thins (stale : α → Prop) (t t' : Table key) : Prop where
  sublist : t'.rows.Sublist t.rows
  missing : ∀ r ∈ t, r ∉ t' → stale r

namespace Thins

variable {stale : α → Prop} {t t' : Table key}

theorem refl (t : Table key) : t.Thins stale t :=
  ⟨List.Sublist.refl _, fun _ hr hmissing ↦ absurd hr hmissing⟩

theorem mem (h : t.Thins stale t') {r : α} (hr : r ∈ t') : r ∈ t := h.sublist.subset hr

theorem mono {stale' : α → Prop} (h : t.Thins stale t') (hstale : ∀ r, stale r → stale' r) :
    t.Thins stale' t' :=
  ⟨h.sublist, fun r hr hmissing ↦ hstale r (h.missing r hr hmissing)⟩

/-! ## What does not look at stale rows -/

section Reads

variable {p : α → Bool} (hp : ∀ r ∈ t, stale r → p r = false)
include hp

theorem filter_eq (h : t.Thins stale t') : t'.rows.filter p = t.rows.filter p :=
  filter_eq_of_sublist h.sublist t.rows_nodup fun r hr hmissing ↦
    hp r hr (h.missing r hr hmissing)

theorem find?_eq (h : t.Thins stale t') : t'.find? p = t.find? p := by
  unfold find?
  rw [← List.head?_filter, ← List.head?_filter, h.filter_eq hp]

theorem countWhere_eq (h : t.Thins stale t') : t'.countWhere p = t.countWhere p := by
  unfold countWhere
  rw [List.countP_eq_length_filter, List.countP_eq_length_filter, h.filter_eq hp]

end Reads

/-! ## Writes -/

theorem updateWhere (h : t.Thins stale t') {p : α → Bool} {f : α → α}
    {hf : ∀ r, key (f r) = key r} (hstale : ∀ r, stale r → stale (f r)) :
    (t.updateWhere p f hf).Thins stale (t'.updateWhere p f hf) := by
  constructor
  · exact h.sublist.map _
  · intro r hr hmissing
    obtain ⟨r₀, hr₀, rfl⟩ := mem_updateWhere.mp hr
    have hold : stale r₀ := h.missing r₀ hr₀ fun hr₀' ↦
      hmissing (mem_updateWhere.mpr ⟨r₀, hr₀', rfl⟩)
    split
    · exact hstale r₀ hold
    · exact hold

theorem deleteWhere (h : t.Thins stale t') (p : α → Bool) :
    (t.deleteWhere p).Thins stale (t'.deleteWhere p) := by
  constructor
  · exact h.sublist.filter _
  · intro r hr hmissing
    obtain ⟨hr, hp⟩ := mem_deleteWhere.mp hr
    exact h.missing r hr fun hr' ↦ hmissing (mem_deleteWhere.mpr ⟨hr', hp⟩)

/-- Deleting more stale rows. -/
theorem sweep (h : t.Thins stale t') {p : α → Bool} (hp : ∀ r, p r = true → stale r) :
    t.Thins stale (t'.deleteWhere p) := by
  constructor
  · exact List.filter_sublist.trans h.sublist
  · intro r hr hmissing
    by_cases hr' : r ∈ t'
    · apply hp
      by_contra hne
      exact hmissing (mem_deleteWhere.mpr ⟨hr', by simpa using hne⟩)
    · exact h.missing r hr hr'

section Key

variable [DecidableEq κ]

theorem get?_eq_none (h : t.Thins stale t') {k : κ} (hk : t.get? k = none) : t'.get? k = none :=
  get?_eq_none_iff.mpr fun r hr ↦ get?_eq_none_iff.mp hk r (h.mem hr)

/-- A row is found in both tables, unless it is stale. -/
theorem get?_eq_or (h : t.Thins stale t') (k : κ) :
    t'.get? k = t.get? k ∨ t'.get? k = none ∧ ∃ r, t.get? k = some r ∧ stale r := by
  cases hk : t.get? k with
  | none => exact .inl (h.get?_eq_none hk)
  | some r =>
      obtain ⟨hr, hkey⟩ := get?_eq_some_iff.mp hk
      by_cases hr' : r ∈ t'
      · exact .inl (get?_eq_some_iff.mpr ⟨hr', hkey⟩)
      · refine .inr ⟨get?_eq_none_iff.mpr fun r' hmem heq ↦ ?_, r, rfl, h.missing r hr hr'⟩
        exact hr' (eq_of_mem (h.mem hmem) hr (heq.trans hkey.symm) ▸ hmem)

/-- A row whose key is free in the larger table goes into both. -/
theorem insert? (h : t.Thins stale t') {r : α} (hfree : t.get? (key r) = none) :
    ∃ u u', t.insert? r = some u ∧ t'.insert? r = some u' ∧ u.Thins stale u' := by
  cases hu : t.insert? r with
  | none => exact absurd (insert?_eq_none.mp hu) (by simp [hfree])
  | some u =>
  cases hu' : t'.insert? r with
  | none => exact absurd (insert?_eq_none.mp hu') (by simp [h.get?_eq_none hfree])
  | some u' =>
      refine ⟨u, u', rfl, rfl, ?_, fun r' hr' hmissing ↦ ?_⟩
      · unfold Table.insert? at hu hu'
        split at hu
        · cases hu
        split at hu'
        · cases hu'
        cases hu
        cases hu'
        exact h.sublist.append_right _
      · rw [mem_insert? hu] at hr'
        rw [mem_insert? hu', not_or] at hmissing
        exact h.missing r' (hr'.resolve_right hmissing.2) hmissing.1

end Key

end Thins

end Table

end Relational
