import ApiStarter.Interleave.Traces

/-!
# Runs that avoid certain steps

A handler that writes in several statements may depend on what happens between
them: on what other threads do there, on whether its own statements fail, on
whether it is cut off.  A guard says which steps a run takes.  `TracedIf` walks
through a handler in such runs, and `ReachableIf.traces` carries what it finds
over to all their interleavings.
-/

namespace Interleave

variable {ι σ κ η ε ε' ε'' α β γ : Type} {Res : ι → Type}

/-- Which statements run, and which threads have a statement fail or are cut off, after a
history. -/
structure Guard (ι σ κ ε α : Type) where
  runs : Event ι σ κ ε α → List (Event ι σ κ ε α) → Prop
  faults : ℕ → κ → List (Event ι σ κ ε α) → Prop
  cuts : ℕ → κ → List (Event ι σ κ ε α) → Prop

variable (G : Guard ι σ κ ε α)

def Guard.Meets (c : Config Res σ κ ε α) : Action κ η → Prop
  | .run i =>
      match c.pool[i]? with
      | some ⟨k, some (.stmt q _)⟩ => G.runs (.ran i k q c.world.store) c.world.history
      | _ => True
  | .fault i => ∀ t ∈ c.pool[i]?, G.faults i t.request c.world.history
  | .cut i => ∀ t ∈ c.pool[i]?, G.cuts i t.request c.world.history
  | _ => True

/-- Configurations reached by runs every step of which meets the guard. -/
inductive ReachableIf (M : Machine Res σ η) (handle : κ → Prog Res ε α) (allowed : κ → Prop)
    (s : σ) : Config Res σ κ ε α → Prop
  | initial : ReachableIf M handle allowed s (.initial s)
  | step {c c' : Config Res σ κ ε α} (a : Action κ η) (hc : ReachableIf M handle allowed s c)
      (ha : a.Starts allowed) (hG : G.Meets c a) (h : c.perform M handle a = some c') :
      ReachableIf M handle allowed s c'

variable {G} {M : Machine Res σ η} {handle : κ → Prog Res ε α} {allowed : κ → Prop} {s : σ}
  {c : Config Res σ κ ε α}

theorem ReachableIf.reachable (hc : ReachableIf G M handle allowed s c) :
    Reachable M handle allowed s c := by
  induction hc with
  | initial => exact .initial
  | step a _ ha _ h ih => exact ih.step a ha h

section Schedules

variable [∀ e h, Decidable (G.runs e h)] [∀ i k h, Decidable (G.faults i k h)]
  [∀ i k h, Decidable (G.cuts i k h)]

instance (c : Config Res σ κ ε α) : (a : Action κ η) → Decidable (G.Meets c a)
  | .run i =>
      match h : c.pool[i]? with
      | some ⟨k, some (.stmt q next)⟩ =>
          decidable_of_iff (G.runs (.ran i k q c.world.store) c.world.history)
            (by simp [Guard.Meets, h])
      | some ⟨_, some (.ret _)⟩ | some ⟨_, some (.fail _)⟩ | some ⟨_, none⟩ | none =>
          .isTrue (by simp [Guard.Meets, h])
  | .fault i => inferInstanceAs (Decidable (∀ t ∈ c.pool[i]?, G.faults i t.request c.world.history))
  | .cut i => inferInstanceAs (Decidable (∀ t ∈ c.pool[i]?, G.cuts i t.request c.world.history))
  | .start _ => .isTrue trivial
  | .answer _ => .isTrue trivial
  | .env _ => .isTrue trivial

/-- Actions taken one after the other as long as the guard is met. -/
def Config.performIf (G : Guard ι σ κ ε α) [∀ e h, Decidable (G.runs e h)]
    [∀ i k h, Decidable (G.faults i k h)] [∀ i k h, Decidable (G.cuts i k h)] (M : Machine Res σ η)
    (handle : κ → Prog Res ε α) (c : Config Res σ κ ε α) :
    List (Action κ η) → Option (Config Res σ κ ε α)
  | [] => some c
  | a :: as =>
      if G.Meets c a then (c.perform M handle a).bind fun c' ↦ c'.performIf G M handle as else none

theorem ReachableIf.performIf {c c' : Config Res σ κ ε α} {as : List (Action κ η)}
    (hc : ReachableIf G M handle allowed s c) (has : ∀ a ∈ as, a.Starts allowed)
    (h : c.performIf G M handle as = some c') : ReachableIf G M handle allowed s c' := by
  induction as generalizing c with
  | nil =>
      simp only [Config.performIf, Option.some.injEq] at h
      exact h ▸ hc
  | cons a as ih =>
      simp only [Config.performIf] at h
      split at h
      next hG =>
        obtain ⟨d, hd, hrest⟩ := Option.bind_eq_some_iff.mp h
        exact ih (hc.step a (has a (by simp)) hG hd) (fun b hb ↦ has b (by simp [hb])) hrest
      next => cases h

/-- A schedule that can be performed under the guard reaches a configuration that passes its
test. -/
theorem ReachableIf.of_schedule (as : List (Action κ η)) (test : Config Res σ κ ε α → Bool)
    (has : ∀ a ∈ as, a.Starts allowed)
    (h : ((Config.initial s).performIf G M handle as).any test = true) :
    ∃ c, ReachableIf G M handle allowed s c ∧ test c = true := by
  obtain ⟨c, hc, htest⟩ := (Option.any_eq_true ..).mp h
  exact ⟨c, ReachableIf.initial.performIf has hc, htest⟩

end Schedules

/-! ## One request -/

section TracedIf

variable (M) (C : Event ι σ κ ε α → List (Event ι σ κ ε α) → Prop)
  (F : List (Event ι σ κ ε α) → Prop)
  (P : Event ι σ κ ε α → List (Event ι σ κ ε α) → Prop) (i : ℕ) (k : κ)

/-- Thread `i`, which did `own` so far, does only what `P` allows in `p` and ends in `Q` or in `E`,
as long as its statements run where `C` holds and fail where `F` holds. -/
def TracedIf : Prog Res ε' β → (β → List (Event ι σ κ ε α) → Prop) →
    (ε' → List (Event ι σ κ ε α) → Prop) → List (Event ι σ κ ε α) → Prop
  | .ret b, Q, _, own => Q b own
  | .fail e, _, E, own => E e own
  | .stmt q next, Q, E, own =>
      (∀ s, C (.ran i k q s) own →
        P (.ran i k q s) own ∧ TracedIf (next (M.exec q s).1) Q E (.ran i k q s :: own)) ∧
        (F own → ∀ r ∈ M.fault q, TracedIf (next r) Q E own)

variable {M C F P i k} {Q Q' : β → List (Event ι σ κ ε α) → Prop}
  {E E' : ε' → List (Event ι σ κ ε α) → Prop} {own : List (Event ι σ κ ε α)}

@[simp] theorem tracedIf_ret (b : β) :
    TracedIf M C F P i k (.ret b : Prog Res ε' β) Q E own ↔ Q b own := Iff.rfl

@[simp] theorem tracedIf_fail (e : ε') :
    TracedIf M C F P i k (.fail e : Prog Res ε' β) Q E own ↔ E e own := Iff.rfl

theorem tracedIf_bind {p : Prog Res ε' β} {f : β → Prog Res ε' γ}
    {Q : γ → List (Event ι σ κ ε α) → Prop} : TracedIf M C F P i k (p >>= f) Q E own ↔
      TracedIf M C F P i k p (fun b ↦ TracedIf M C F P i k (f b) Q E) E own := by
  induction p generalizing own with
  | ret b => exact Iff.rfl
  | fail e => exact Iff.rfl
  | stmt q next ih => simp only [Prog.stmt_bind, TracedIf, ih]

theorem tracedIf_bindBoth {p : Prog Res ε' β} {f : Except ε' β → Prog Res ε'' γ}
    {Q : γ → List (Event ι σ κ ε α) → Prop} {E : ε'' → List (Event ι σ κ ε α) → Prop} :
    TracedIf M C F P i k (p.bindBoth f) Q E own ↔
      TracedIf M C F P i k p (fun b ↦ TracedIf M C F P i k (f (.ok b)) Q E)
        (fun e ↦ TracedIf M C F P i k (f (.error e)) Q E) own := by
  induction p generalizing own with
  | ret b => exact Iff.rfl
  | fail e => exact Iff.rfl
  | stmt q next ih => simp only [Prog.bindBoth, TracedIf, ih]

theorem tracedIf_mapErr {p : Prog Res ε' β} {f : ε' → ε''}
    {E : ε'' → List (Event ι σ κ ε α) → Prop} :
    TracedIf M C F P i k (p.mapErr f) Q E own ↔
      TracedIf M C F P i k p Q (fun e ↦ E (f e)) own :=
  tracedIf_bindBoth

@[simp] theorem tracedIf_okOr (e : ε') (o : Option β) :
    TracedIf M C F P i k (Prog.okOr e o) Q E own ↔
      (∀ b, o = some b → Q b own) ∧ (o = none → E e own) := by
  cases o <;> simp

@[simp] theorem tracedIf_ensure (c : Prop) [Decidable c] (e : ε')
    {Q : Unit → List (Event ι σ κ ε α) → Prop} :
    TracedIf M C F P i k (Prog.ensure c e) Q E own ↔ (c → Q () own) ∧ (¬c → E e own) := by
  by_cases h : c <;> simp [Prog.ensure, h]

theorem TracedIf.mono {p : Prog Res ε' β} (h : TracedIf M C F P i k p Q E own)
    (hQ : ∀ b own, Q b own → Q' b own) (hE : ∀ e own, E e own → E' e own) :
    TracedIf M C F P i k p Q' E' own := by
  induction p generalizing own with
  | ret b => exact hQ b own h
  | fail e => exact hE e own h
  | stmt q next ih =>
      obtain ⟨hran, hfault⟩ := h
      exact ⟨fun s hs ↦ ⟨(hran s hs).1, ih _ (hran s hs).2⟩, fun hF r hr ↦ ih r (hfault hF r hr)⟩

/-- What is found without conditions holds under them. -/
theorem Traced.under {p : Prog Res ε' β} (h : Traced M P i k p Q E own) :
    TracedIf M C F P i k p Q E own := by
  induction p generalizing own with
  | ret b => exact h
  | fail e => exact h
  | stmt q next ih =>
      exact ⟨fun s _ ↦ ⟨(h.1 s).1, ih _ (h.1 s).2⟩, fun _ r hr ↦ ih r (h.2 r hr)⟩

end TracedIf

/-! ## All runs -/

section Runs

variable {C P : Event ι σ κ ε α → List (Event ι σ κ ε α) → Prop}
  {F : κ → List (Event ι σ κ ε α) → Prop}

/-- Every thread is somewhere in its handler. -/
structure Config.Follows (M : Machine Res σ η)
    (C : Event ι σ κ ε α → List (Event ι σ κ ε α) → Prop)
    (F : κ → List (Event ι σ κ ε α) → Prop)
    (P : Event ι σ κ ε α → List (Event ι σ κ ε α) → Prop) (c : Config Res σ κ ε α) : Prop where
  fresh : ∀ e ∈ c.world.history, e.tid < c.pool.length
  along : Along (AlongOwn P) c.world.history
  threads : ∀ i k p, c.pool[i]? = some ⟨k, some p⟩ →
    TracedIf M C (F k) P i k p (fun a ↦ Delivers P i k (.ok a)) (fun e ↦ Delivers P i k (.error e))
      (ownEvents i c.world.history)

/-- One thread takes a step and leaves the others where they are. -/
theorem Config.Follows.setRest (hc : c.Follows M C F P) {i : ℕ} {k : κ} {p : Prog Res ε α}
    (hi : c.pool[i]? = some ⟨k, some p⟩) {p' : Option (Prog Res ε α)} {W : World ι σ κ ε α}
    (new : List (Event ι σ κ ε α)) (hW : W.history = new ++ c.world.history)
    (hnew : ∀ e ∈ new, e.tid = i) (halong : Along (AlongOwn P) W.history)
    (hp : ∀ p₁, p' = some p₁ → TracedIf M C (F k) P i k p₁ (fun a ↦ Delivers P i k (.ok a))
      (fun e ↦ Delivers P i k (.error e)) (ownEvents i W.history)) :
    (c.setRest i k p' W).Follows M C F P := by
  have hlt := (List.getElem?_eq_some_iff.mp hi).1
  refine ⟨fun e he ↦ ?_, halong, fun j k' p₁ hj ↦ ?_⟩
  · simp only [Config.setRest, List.length_set]
    rcases List.mem_append.mp (hW ▸ he : e ∈ new ++ c.world.history) with hmem | hmem
    · exact hnew e hmem ▸ hlt
    · exact hc.fresh e hmem
  · by_cases hij : i = j
    · subst hij
      simp only [Config.setRest, List.getElem?_set_self hlt, Option.some.injEq,
        Thread.mk.injEq] at hj
      obtain ⟨rfl, hp'⟩ := hj
      exact hp p₁ hp'
    · have hown : ownEvents j W.history = ownEvents j c.world.history := by
        rw [hW, ownEvents, List.filter_append, List.filter_eq_nil_iff.mpr, List.nil_append,
          ownEvents]
        intro e he
        simpa [hnew e he] using hij
      simp only [Config.setRest, List.getElem?_set_ne hij] at hj
      rw [Config.setRest, hown]
      exact hc.threads j k' p₁ hj

/-- What every handler does under the conditions of the guard, every thread does in every
interleaving that meets it. -/
theorem ReachableIf.follows (hc : ReachableIf G M handle allowed s c)
    (hC : ∀ e h, G.runs e h → C e (ownEvents e.tid h))
    (hF : ∀ i k h, G.faults i k h → F k (ownEvents i h))
    (h : ∀ k, allowed k → ∀ i, TracedIf M C (F k) P i k (handle k)
      (fun a ↦ Delivers P i k (.ok a)) (fun e ↦ Delivers P i k (.error e)) []) :
    c.Follows M C F P := by
  induction hc with
  | initial => exact ⟨by simp [Config.initial], trivial, by simp [Config.initial]⟩
  | @step d d' a _ ha hG hstep ih =>
      rcases Config.perform_cases hstep with ⟨k, rfl, rfl⟩ | ⟨i, k, q, next, rfl, hi, rfl⟩ |
        ⟨i, k, q, next, r, rfl, hi, hr, rfl⟩ | ⟨i, k, rfl, ⟨b, hi, rfl⟩ | ⟨e, hi, rfl⟩⟩ |
        ⟨i, k, p, rfl, hi, rfl⟩ | ⟨x, rfl, rfl⟩
      · refine ⟨fun e he ↦ ?_, ih.along, fun i k' p hi ↦ ?_⟩
        · simpa using Nat.lt_succ_of_lt (ih.fresh e he)
        · rw [List.getElem?_append] at hi
          split at hi
          · exact ih.threads i k' p hi
          next hlt =>
            obtain rfl : i = d.pool.length := by
              have := (List.getElem?_eq_some_iff.mp hi).1
              simp at this
              omega
            simp only [Nat.sub_self, List.getElem?_cons_zero, Option.some.injEq,
              Thread.mk.injEq] at hi
            obtain ⟨rfl, rfl⟩ := hi
            rw [ownEvents_of_lt ih.fresh]
            exact h k ha _
      · have hruns : G.runs (.ran i k q d.world.store) d.world.history := by
          simpa [Guard.Meets, hi] using hG
        obtain ⟨hP, hnext⟩ := (ih.threads i k _ hi).1 d.world.store (hC _ _ hruns)
        refine ih.setRest hi [.ran i k q d.world.store] rfl (by simp) ⟨hP, ih.along⟩ fun p₁ hp₁ ↦ ?_
        obtain rfl := Option.some.inj hp₁
        rw [ownEvents_ran]
        exact hnext
      · have hfails : G.faults i k d.world.history := hG _ hi
        refine ih.setRest hi [] rfl (by simp) ih.along fun p₁ hp₁ ↦ ?_
        obtain rfl := Option.some.inj hp₁
        exact (ih.threads i k _ hi).2 (hF i k _ hfails) r hr
      · exact ih.setRest hi [.answered i k (.ok b) d.world.store] rfl (by simp)
          ⟨ih.threads i k _ hi d.world.store, ih.along⟩ (by simp)
      · exact ih.setRest hi [.answered i k (.error e) d.world.store] rfl (by simp)
          ⟨ih.threads i k _ hi d.world.store, ih.along⟩ (by simp)
      · exact ih.setRest hi [] rfl (by simp) ih.along (by simp)
      · exact ⟨ih.fresh, ih.along, ih.threads⟩

/-- Every statement of a guarded run met the guard. -/
theorem ReachableIf.runs (hc : ReachableIf G M handle allowed s c)
    {later earlier : List (Event ι σ κ ε α)} {i : ℕ} {k : κ} {q : ι} {b : σ}
    (hhist : c.world.history = later ++ .ran i k q b :: earlier) :
    G.runs (.ran i k q b) earlier := by
  induction hc generalizing later with
  | initial => simp [Config.initial] at hhist
  | @step d d' a _ _ hG hstep ih =>
      rcases Config.perform_cases hstep with ⟨k, rfl, rfl⟩ | ⟨i, k, q, next, rfl, hi, rfl⟩ |
        ⟨i, k, q, next, r, rfl, hi, hr, rfl⟩ | ⟨i, k, rfl, ⟨b, hi, rfl⟩ | ⟨e, hi, rfl⟩⟩ |
        ⟨i, k, p, rfl, hi, rfl⟩ | ⟨x, rfl, rfl⟩
      · exact ih hhist
      · cases later with
        | nil =>
            obtain ⟨heq, rfl⟩ := List.cons.inj hhist
            cases heq
            simpa [Guard.Meets, hi] using hG
        | cons x later => exact ih (List.cons.inj hhist).2
      · exact ih hhist
      · cases later with
        | nil => cases (List.cons.inj hhist).1
        | cons x later => exact ih (List.cons.inj hhist).2
      · cases later with
        | nil => cases (List.cons.inj hhist).1
        | cons x later => exact ih (List.cons.inj hhist).2
      · exact ih hhist
      · exact ih hhist

theorem Config.thread_setRest {i : ℕ} {k k' : κ} {p : Prog Res ε α} {p' : Option (Prog Res ε α)}
    {W : World ι σ κ ε α} (hi : c.pool[i]? = some ⟨k, some p⟩) {t : Thread Res κ ε α}
    (ht : (c.setRest i k' p' W).pool[i]? = some t) : t = ⟨k', p'⟩ := by
  have hlt := (List.getElem?_eq_some_iff.mp hi).1
  simpa [Config.setRest, List.getElem?_set_self hlt, eq_comm] using ht

/-- A thread that is done was answered, or cut off where the guard allows it. -/
theorem ReachableIf.done (hc : ReachableIf G M handle allowed s c) {i : ℕ} {k : κ}
    (hdone : c.pool[i]? = some ⟨k, none⟩) :
    (∃ a ∈ ownEvents i c.world.history, a.isAnswer = true) ∨
      ∃ h, G.cuts i k h ∧ ownEvents i h = ownEvents i c.world.history := by
  induction hc with
  | initial => simp [Config.initial] at hdone
  | @step d d' a _ _ hG hstep ih =>
      have hother {j : ℕ} {k' : κ} {p : Option (Prog Res ε α)} {W : World ι σ κ ε α}
          (hset : (d.setRest j k' p W).pool[i]? = some ⟨k, none⟩) (hij : j ≠ i) :
          d.pool[i]? = some ⟨k, none⟩ := by
        simpa [Config.setRest, hij] using hset
      have hown {e : Event ι σ κ ε α} (he : e.tid ≠ i) (h : List (Event ι σ κ ε α)) :
          ownEvents i (e :: h) = ownEvents i h := by
        simp [ownEvents, he]
      rcases Config.perform_cases hstep with ⟨k', rfl, rfl⟩ | ⟨j, k', q, next, rfl, hj, rfl⟩ |
        ⟨j, k', q, next, r, rfl, hj, hr, rfl⟩ | ⟨j, k', rfl, hanswer⟩ |
        ⟨j, k', p, rfl, hj, rfl⟩ | ⟨x, rfl, rfl⟩
      · rw [List.getElem?_append] at hdone
        split at hdone
        · exact ih hdone
        · simp [List.getElem?_cons] at hdone
      · by_cases hij : j = i
        · subst hij
          cases Config.thread_setRest hj hdone
        · rw [Config.setRest, World.ran_history, hown (e := .ran j k' q d.world.store) hij]
          exact ih (hother hdone hij)
      · by_cases hij : j = i
        · subst hij
          cases Config.thread_setRest hj hdone
        · exact ih (hother hdone hij)
      · obtain ⟨b, p, hj, rfl⟩ : ∃ b p, d.pool[j]? = some ⟨k', some p⟩ ∧
            d' = d.setRest j k' none (d.world.answered j k' b) := by
          rcases hanswer with ⟨b, hj, rfl⟩ | ⟨e, hj, rfl⟩
          · exact ⟨_, _, hj, rfl⟩
          · exact ⟨_, _, hj, rfl⟩
        by_cases hij : j = i
        · subst hij
          exact .inl ⟨.answered j k' b d.world.store, by simp [Config.setRest], rfl⟩
        · rw [Config.setRest, World.answered_history,
            hown (e := .answered j k' b d.world.store) hij]
          exact ih (hother hdone hij)
      · by_cases hij : j = i
        · subst hij
          cases Config.thread_setRest hj hdone
          exact .inr ⟨d.world.history, hG _ hj, rfl⟩
        · exact ih (hother hdone hij)
      · exact ih hdone

end Runs

end Interleave
