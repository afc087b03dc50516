import ApiStarter.Interleave.Discipline
import Mathlib.Data.List.TakeWhile

/-!
# Counts that are checked first and raised later

A thread looks at a count, finds it below a limit and raises it in a later step.
If nothing has raised it in between there is still room for one.
-/

namespace Interleave

variable {ι σ κ η ε α : Type} {Res : ι → Type}

/-- A count that some statements raise and some lower, by one each. -/
structure Tally (M : Machine Res σ η) (f : σ → ℕ) (raises lowers : Event ι σ κ ε α → Bool)
    (h : List (Event ι σ κ ε α)) : Prop where
  env : ∀ x s, f (M.env x s) = f s
  answered : ∀ i k a s, raises (.answered i k a s) = false ∧ lowers (.answered i k a s) = false
  ran : ∀ i k q s, .ran i k q s ∈ h →
    f s + (if raises (.ran i k q s) then 1 else 0) =
      f (M.exec q s).2 + if lowers (.ran i k q s) then 1 else 0

section Runs

variable {M : Machine Res σ η} {handle : κ → Prog Res ε α} {allowed : κ → Prop} {s : σ}
  {c : Config Res σ κ ε α} {f : σ → ℕ} {raises lowers : Event ι σ κ ε α → Bool} {limit : ℕ}

theorem Tally.mono {h h' : List (Event ι σ κ ε α)} (ht : Tally M f raises lowers h)
    (hsub : ∀ e ∈ h', e ∈ h) : Tally M f raises lowers h' where
  env := ht.env
  answered := ht.answered
  ran i k q s hran := ht.ran i k q s (hsub _ hran)

/-- What has been added and removed in a run is the difference in the count. -/
theorem Reachable.tally (hc : Reachable M handle allowed s c)
    (ht : Tally M f raises lowers c.world.history) :
    f s + c.world.history.countP raises = f c.world.store + c.world.history.countP lowers := by
  revert ht
  refine hc.world_induction (P := fun W ↦ Tally M f raises lowers W.history →
    f s + W.history.countP raises = f W.store + W.history.countP lowers) ?_ ?_ ?_ ?_
  · simp
  · intro i k q W ih ht
    have hbefore := ih (ht.mono fun e he ↦ List.mem_cons_of_mem _ he)
    have hstep := ht.ran i k q W.store List.mem_cons_self
    simp only [World.ran_history, World.ran_store, List.countP_cons]
    omega
  · intro i k a W ih ht
    have hbefore := ih (ht.mono fun e he ↦ List.mem_cons_of_mem _ he)
    simpa [List.countP_cons, ht.answered i k a W.store] using hbefore
  · intro x W ih ht
    rw [World.moved_store, ht.env]
    exact ih ht

/-- From an event on. -/
theorem Reachable.tally_from (hc : Reachable M handle allowed s c)
    (ht : Tally M f raises lowers c.world.history) {later earlier : List (Event ι σ κ ε α)}
    {e : Event ι σ κ ε α} (hhist : c.world.history = later ++ e :: earlier) :
    f e.store + (later ++ [e]).countP raises =
      f c.world.store + (later ++ [e]).countP lowers := by
  obtain ⟨c', hc', hworld⟩ := hc.past hhist
  have hbefore := hc'.tally (ht.mono fun x hx ↦ by
    rw [hworld] at hx
    simp [hhist, show x ∈ earlier from hx])
  have hafter := hc.tally ht
  rw [hworld] at hbefore
  rw [hhist] at hafter
  simp only [List.countP_append, List.countP_cons, List.countP_nil] at hafter ⊢
  simp only at hbefore
  omega

/-- What a thread looks for among its own events is found in the history. -/
theorem find?_ownEvents {p : Event ι σ κ ε α → Bool} {i : ℕ} (hp : ∀ e, p e = true → e.tid = i)
    (h : List (Event ι σ κ ε α)) : (ownEvents i h).find? p = h.find? p := by
  rw [ownEvents, List.find?_filter]
  refine congrArg (List.find? · h) (funext fun e ↦ ?_)
  by_cases htid : e.tid = i
  · simp [htid]
  · have hfails : p e = false := by
      rw [← Bool.not_eq_true]
      exact fun he ↦ htid (hp e he)
    simp [htid, hfails]

/-- An event raises the count only if an earlier one found room and nothing has raised it since. -/
def ChecksFirst (f : σ → ℕ) (raises : Event ι σ κ ε α → Bool) (limit : ℕ) (e : Event ι σ κ ε α)
    (earlier : List (Event ι σ κ ε α)) : Prop :=
  raises e = true → ∃ newer x older, earlier = newer ++ x :: older ∧ f x.store < limit ∧
    ∀ y ∈ newer ++ [x], raises y = false

/-- Where an event raises the count, there is room. -/
theorem Reachable.room_of_checksFirst (hc : Reachable M handle allowed s c)
    (ht : Tally M f raises lowers c.world.history) {later earlier : List (Event ι σ κ ε α)}
    {e : Event ι σ κ ε α} (hhist : c.world.history = later ++ e :: earlier)
    (hchecks : ChecksFirst f raises limit e earlier) (he : raises e = true) :
    f e.store < limit := by
  obtain ⟨newer, x, older, rfl, hroom, hsince⟩ := hchecks he
  obtain ⟨c', hc', hworld⟩ := hc.past hhist
  have hhist' : c'.world.history = newer ++ x :: older := by rw [hworld]
  have htally : Tally M f raises lowers c'.world.history := ht.mono fun y hy ↦ by
    rw [hhist'] at hy
    rw [hhist]
    exact List.mem_append_right _ (List.mem_cons_of_mem _ hy)
  have hfrom := hc'.tally_from htally hhist'
  have hnone : (newer ++ [x]).countP raises = 0 :=
    List.countP_eq_zero.mpr fun y hy ↦ by simp [hsince y hy]
  rw [hnone, hworld] at hfrom
  simp only at hfrom
  omega

/-- A count that is only raised after a check, with nothing raising it in between, stays within
its limit. -/
theorem Reachable.within_of_checksFirst (hc : Reachable M handle allowed s c)
    (ht : Tally M f raises lowers c.world.history) (hs : f s ≤ limit)
    (hchecks : Along (ChecksFirst f raises limit) c.world.history) :
    f c.world.store ≤ limit ∧
      ∀ i k q b, .ran i k q b ∈ c.world.history → f (M.exec q b).2 ≤ limit := by
  have hstep : ∀ i k q b, .ran i k q b ∈ c.world.history → f b ≤ limit →
      f (M.exec q b).2 ≤ limit := by
    intro i k q b hran hb
    obtain ⟨later, earlier, hhist⟩ := List.append_of_mem hran
    have hcount := ht.ran i k q b hran
    cases hraises : raises (.ran i k q b) with
    | false =>
        simp only [hraises, Bool.false_eq_true, if_false] at hcount
        omega
    | true =>
        have hroom := hc.room_of_checksFirst ht hhist
          (Along.of_append (P := ChecksFirst f raises limit) (hhist ▸ hchecks)) hraises
        simp only [hraises, if_true, Event.store_ran] at hcount hroom
        omega
  have hlive : ∀ {c' : Config Res σ κ ε α}, Reachable M handle allowed s c' →
      (∀ x ∈ c'.world.history, x ∈ c.world.history) → f c'.world.store ≤ limit := by
    intro c' hc' hsub
    refine hc'.live_of_start (fun s ↦ f s ≤ limit) (fun x s ↦ by rw [ht.env]) hs
      fun x hx hlive hend ↦ ?_
    cases x with
    | answered => exact hend
    | ran j k q b => exact hend (hstep j k q b (hsub _ hx) hlive)
  refine ⟨hlive hc fun _ hx ↦ hx, fun i k q b hran ↦ hstep i k q b hran ?_⟩
  obtain ⟨later, earlier, hhist⟩ := List.append_of_mem hran
  obtain ⟨c', hc', hworld⟩ := hc.past hhist
  have hb := hlive hc' fun x hx ↦ by
    rw [hworld] at hx
    rw [hhist]
    exact List.mem_append_right _ (List.mem_cons_of_mem _ hx)
  rwa [hworld] at hb

end Runs

end Interleave
