import ApiStarter.Interleave.Discipline

/-!
# Values made from fresh draws

A statement hands out the next number of a counter, and handlers make values
from the numbers they drew.  When different draws give different values, and no
draw is used twice, each value is made at most once.
-/

namespace Interleave

variable {ι σ κ η ε ε' α β V : Type} {Res : ι → Type}

/-- A statement that draws the next number, the only one to move the counter. -/
structure Dispenser (M : Machine Res σ η) where
  draw : ι
  count : σ → ℕ
  count_draw : ∀ s, count (M.exec draw s).2 = count s + 1
  count_le : ∀ q s, count s ≤ count (M.exec q s).2
  count_env : ∀ x s, count (M.env x s) = count s

variable {M : Machine Res σ η} (d : Dispenser M) (mints : ι → V → Prop) (source : ℕ → V → Prop)

/-- The event ran a statement that makes `v`. -/
def Event.Mints (v : V) (e : Event ι σ κ ε α) : Prop := e.Ran fun q _ ↦ mints q v

/-- Thread `i` has drawn the number `n` and made nothing since. -/
def Unspent (i n : ℕ) (h : List (Event ι σ κ ε α)) : Prop :=
  ∃ newer k b older, h = newer ++ .ran i k d.draw b :: older ∧ d.count b = n ∧
    ∀ e ∈ newer, e.tid = i → ∀ v, ¬e.Mints mints v

/-- What a statement makes comes from an unspent draw of its own thread. -/
def MintsFresh : Event ι σ κ ε α → List (Event ι σ κ ε α) → Prop
  | .ran i _ q _, earlier => ∀ v, mints q v → ∃ n, source n v ∧ Unspent d mints i n earlier
  | .answered .., _ => True

variable {d mints source} {D : Discipline ι σ κ ε α} {i n : ℕ} {k : κ} {W W' : World ι σ κ ε α}

theorem Unspent.drawn : Unspent d mints i (d.count W.store) (W.ran M i k d.draw).history :=
  ⟨[], k, W.store, W.history, rfl, rfl, by simp⟩

theorem Unspent.evolve (h : Unspent d mints i n W.history) (hW : D.Evolves i W W') :
    Unspent d mints i n W'.history := by
  obtain ⟨newer, k, b, older, hhist, hcount, hnewer⟩ := h
  obtain ⟨new, hnew, hother⟩ := hW.others
  refine ⟨new ++ newer, k, b, older, by rw [hnew, hhist, List.append_assoc], hcount, ?_⟩
  intro e he hi
  rcases List.mem_append.mp he with he | he
  · exact absurd hi (hother e he)
  · exact hnewer e he hi

theorem Unspent.ran (h : Unspent d mints i n W.history) {q : ι} (hq : ∀ v, ¬mints q v) :
    Unspent d mints i n (W.ran M i k q).history := by
  obtain ⟨newer, k', b, older, hhist, hcount, hnewer⟩ := h
  refine ⟨.ran i k q W.store :: newer, k', b, older, by simp [hhist], hcount, ?_⟩
  intro e he hi
  rcases List.mem_cons.mp he with rfl | he
  · exact hq
  · exact hnewer e he hi

/-! ## Walking through a handler -/

theorem keeps_mintsFresh {q : ι} :
    (Discipline.along (MintsFresh d mints source)).Keeps W (W.ran M i k q) ↔
      (∀ v, mints q v → ∃ n, source n v ∧ Unspent d mints i n W.history) ∧
        Along (MintsFresh d mints source) W.history :=
  Discipline.keeps_along_ran

/-- An unspent draw stays unspent while nothing is made. -/
theorem wp_unspent {p : Prog Res ε' β} (hp : p.Only fun q ↦ ∀ v, ¬mints q v)
    (hW : (Discipline.along (MintsFresh d mints source)).Inv W)
    (h : Unspent d mints i n W.history) :
    wp M (.along (MintsFresh d mints source)) i k p
      (fun _ W ↦ (Discipline.along (MintsFresh d mints source)).Inv W ∧
        Unspent d mints i n W.history)
      (fun _ W ↦ (Discipline.along (MintsFresh d mints source)).Inv W ∧
        Unspent d mints i n W.history)
      W := by
  refine wp_stable (A := fun W ↦ Unspent d mints i n W.history) hp
    (fun q hq W hW h ↦ ⟨?_, h.ran hq⟩)
    (fun _ _ hW h ↦ h.evolve hW) hW h
  exact keeps_mintsFresh.mpr ⟨fun v hv ↦ absurd hv (hq v), hW⟩

/-! ## All runs -/

section Runs

variable {handle : κ → Prog Res ε α} {allowed : κ → Prop} {s : σ} {c : Config Res σ κ ε α}

/-- Later draws have larger numbers. -/
theorem Reachable.count_lt (hc : Reachable M handle allowed s c)
    {later earlier : List (Event ι σ κ ε α)} {i : ℕ} {k : κ} {b : σ}
    (h : c.world.history = later ++ .ran i k d.draw b :: earlier) :
    d.count b < d.count c.world.store := by
  refine hc.world_induction
    (P := fun W ↦ ∀ later, W.history = later ++ .ran i k d.draw b :: earlier →
    d.count b < d.count W.store) ?_ ?_ ?_ ?_ later h
  · intro later h
    simp at h
  · intro i' k' q W ih later h
    cases later with
    | nil =>
        obtain ⟨heq, -⟩ := List.cons.inj h
        cases heq
        exact (d.count_draw W.store).symm ▸ Nat.lt_succ_self _
    | cons _ later => exact Nat.lt_of_lt_of_le (ih later (List.cons.inj h).2) (d.count_le q W.store)
  · intro i' k' a W ih later h
    cases later with
    | nil => cases (List.cons.inj h).1
    | cons _ later => exact ih later (List.cons.inj h).2
  · intro x W ih later h
    exact (d.count_env x W.store).symm ▸ ih later h

/-- Two draws of one number are the same draw, found at the same place. -/
theorem Reachable.draw_unique (hc : Reachable M handle allowed s c)
    {l₁ l₂ r₁ r₂ : List (Event ι σ κ ε α)} {i j : ℕ} {k k' : κ} {b b' : σ}
    (h₁ : c.world.history = l₁ ++ .ran i k d.draw b :: r₁)
    (h₂ : c.world.history = l₂ ++ .ran j k' d.draw b' :: r₂) (hcount : d.count b = d.count b') :
    l₁ = l₂ ∧ i = j := by
  rcases List.append_eq_append_iff.mp (h₁.symm.trans h₂) with ⟨mid, hl, hr⟩ | ⟨mid, hl, hr⟩
  · cases mid with
    | nil =>
        obtain ⟨heq, -⟩ := List.cons.inj hr
        cases heq
        exact ⟨by simpa using hl.symm, rfl⟩
    | cons e mid =>
        obtain ⟨c', hc', hworld⟩ := hc.past h₁
        have hlt := hc'.count_lt (d := d) (by rw [hworld]; exact (List.cons.inj hr).2)
        rw [hworld] at hlt
        exact absurd hcount (Nat.ne_of_gt hlt)
  · cases mid with
    | nil =>
        obtain ⟨heq, -⟩ := List.cons.inj hr
        cases heq
        exact ⟨by simpa using hl, rfl⟩
    | cons e mid =>
        obtain ⟨c', hc', hworld⟩ := hc.past h₂
        have hlt := hc'.count_lt (d := d) (by rw [hworld]; exact (List.cons.inj hr).2)
        rw [hworld] at hlt
        exact absurd hcount (Nat.ne_of_lt hlt)

/-- A value that is made comes from a draw of the run. -/
theorem Reachable.source_of_mints (hc : Reachable M handle allowed s c)
    (hfresh : Along (MintsFresh d mints source) c.world.history) {v : V} {e : Event ι σ κ ε α}
    (he : e ∈ c.world.history) (hv : e.Mints mints v) :
    ∃ n < d.count c.world.store, source n v := by
  obtain ⟨later, earlier, hhist, hstep⟩ := hfresh.of_mem he
  cases e with
  | answered => exact hv.elim
  | ran i k q b =>
      obtain ⟨n, hsource, newer, k', b', older, hdraw, rfl, -⟩ := hstep v hv
      have hat : c.world.history =
          (later ++ .ran i k q b :: newer) ++ .ran i k' d.draw b' :: older := by
        simp [hhist, hdraw]
      exact ⟨d.count b', hc.count_lt hat, hsource⟩

/-- When different draws of the run give different values, no value is made twice. -/
theorem Reachable.minted_once (hc : Reachable M handle allowed s c)
    (hfresh : Along (MintsFresh d mints source) c.world.history) {v : V}
    (hdistinct : ∀ m n, m < d.count c.world.store → n < d.count c.world.store →
      source m v → source n v → m = n) :
    Once (Event.Mints mints v) c.world.history := by
  refine pairwise_of_split fun later e₂ mid e₁ earlier hhist ↦ ?_
  rintro ⟨h₁, h₂⟩
  have hsplit : c.world.history = (later ++ e₂ :: mid) ++ e₁ :: earlier := by simpa using hhist
  cases e₁ with
  | answered => exact h₁
  | ran i₁ k₁ q₁ b₁ =>
  cases e₂ with
  | answered => exact h₂
  | ran i₂ k₂ q₂ b₂ =>
      have hfresh₁ : MintsFresh d mints source (.ran i₁ k₁ q₁ b₁) earlier :=
        Along.of_append (hsplit ▸ hfresh)
      have hfresh₂ : MintsFresh d mints source (.ran i₂ k₂ q₂ b₂) _ :=
        Along.of_append (hhist ▸ hfresh)
      obtain ⟨n₁, hsource₁, newer₁, k₁', d₁, older₁, hdraw₁, rfl, -⟩ := hfresh₁ v h₁
      obtain ⟨n₂, hsource₂, newer₂, k₂', d₂, older₂, hdraw₂, rfl, hnewer₂⟩ := hfresh₂ v h₂
      have hat₁ : c.world.history =
          (later ++ .ran i₂ k₂ q₂ b₂ :: (mid ++ .ran i₁ k₁ q₁ b₁ :: newer₁)) ++
            .ran i₁ k₁' d.draw d₁ :: older₁ := by
        simp [hhist, hdraw₁]
      have hat₂ : c.world.history = (later ++ .ran i₂ k₂ q₂ b₂ :: newer₂) ++
          .ran i₂ k₂' d.draw d₂ :: older₂ := by
        simp [hhist, hdraw₂]
      have hcount := hdistinct _ _ (hc.count_lt hat₁) (hc.count_lt hat₂) hsource₁ hsource₂
      obtain ⟨hsame, rfl⟩ := hc.draw_unique hat₁ hat₂ hcount
      -- both draws are one, so the first value was made between it and the second
      have hnewer : newer₂ = mid ++ .ran i₁ k₁ q₁ b₁ :: newer₁ := by
        have := List.append_cancel_left hsame
        exact (List.cons.inj this).2.symm
      exact hnewer₂ (.ran i₁ k₁ q₁ b₁) (by simp [hnewer]) rfl v h₁

end Runs

end Interleave
