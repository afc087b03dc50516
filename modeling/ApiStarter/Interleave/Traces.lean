import ApiStarter.Interleave.Discipline

/-!
# What one request does

A fact about an event and what its own thread did before cannot be disturbed by
other threads.  To establish it, `Traced` walks through the handler alone, with
an arbitrary store at every statement, and `Reachable.traces` carries it over to
all interleavings.
-/

namespace Interleave

variable {ι σ κ η ε ε' ε'' α β γ : Type} {Res : ι → Type}

section Traced

variable (M : Machine Res σ η) (P : Event ι σ κ ε α → List (Event ι σ κ ε α) → Prop) (i : ℕ) (k : κ)

/-- Thread `i`, which did `own` so far (newest first), does only what `P` allows in `p`, and
ends in `Q` or in `E`. -/
def Traced : Prog Res ε' β → (β → List (Event ι σ κ ε α) → Prop) →
    (ε' → List (Event ι σ κ ε α) → Prop) → List (Event ι σ κ ε α) → Prop
  | .ret b, Q, _, own => Q b own
  | .fail e, _, E, own => E e own
  | .stmt q next, Q, E, own =>
      (∀ s, P (.ran i k q s) own ∧ Traced (next (M.exec q s).1) Q E (.ran i k q s :: own)) ∧
        ∀ r ∈ M.fault q, Traced (next r) Q E own

/-- `P` allows the answer, whenever it is delivered. -/
def Delivers (a : Except ε α) (own : List (Event ι σ κ ε α)) : Prop :=
  ∀ s, P (.answered i k a s) own

/-- `P` allows everything the handler of `k` does. -/
def Traces (handle : κ → Prog Res ε α) : Prop :=
  ∀ i, Traced M P i k (handle k) (fun a ↦ Delivers P i k (.ok a))
    (fun e ↦ Delivers P i k (.error e)) []

variable {M P i k} {Q Q' : β → List (Event ι σ κ ε α) → Prop}
  {E E' : ε' → List (Event ι σ κ ε α) → Prop} {own : List (Event ι σ κ ε α)}

@[simp] theorem traced_ret (b : β) :
    Traced M P i k (.ret b : Prog Res ε' β) Q E own ↔ Q b own := Iff.rfl

@[simp] theorem traced_fail (e : ε') :
    Traced M P i k (.fail e : Prog Res ε' β) Q E own ↔ E e own := Iff.rfl

theorem traced_stmt (q : ι) (next : Res q → Prog Res ε' β) :
    Traced M P i k (.stmt q next) Q E own ↔
      (∀ s, P (.ran i k q s) own ∧ Traced M P i k (next (M.exec q s).1) Q E (.ran i k q s :: own)) ∧
        ∀ r ∈ M.fault q, Traced M P i k (next r) Q E own := Iff.rfl

theorem traced_ask (q : ι) {Q : Res q → List (Event ι σ κ ε α) → Prop} :
    Traced M P i k (Prog.ask q) Q E own ↔
      (∀ s, P (.ran i k q s) own ∧ Q (M.exec q s).1 (.ran i k q s :: own)) ∧
        ∀ r ∈ M.fault q, Q r own := Iff.rfl

theorem Traced.mono {p : Prog Res ε' β} (h : Traced M P i k p Q E own)
    (hQ : ∀ b own, Q b own → Q' b own) (hE : ∀ e own, E e own → E' e own) :
    Traced M P i k p Q' E' own := by
  induction p generalizing own with
  | ret b => exact hQ b own h
  | fail e => exact hE e own h
  | stmt q next ih =>
      obtain ⟨hran, hfault⟩ := h
      exact ⟨fun s ↦ ⟨(hran s).1, ih _ (hran s).2⟩, fun r hr ↦ ih r (hfault r hr)⟩

theorem Traced.and {p : Prog Res ε' β} (h : Traced M P i k p Q E own)
    (h' : Traced M P i k p Q' E' own) :
    Traced M P i k p (fun b own ↦ Q b own ∧ Q' b own) (fun e own ↦ E e own ∧ E' e own) own := by
  induction p generalizing own with
  | ret b => exact ⟨h, h'⟩
  | fail e => exact ⟨h, h'⟩
  | stmt q next ih =>
      exact ⟨fun s ↦ ⟨(h.1 s).1, ih _ (h.1 s).2 (h'.1 s).2⟩,
        fun r hr ↦ ih r (h.2 r hr) (h'.2 r hr)⟩

theorem traced_bind {p : Prog Res ε' β} {f : β → Prog Res ε' γ}
    {Q : γ → List (Event ι σ κ ε α) → Prop} : Traced M P i k (p >>= f) Q E own ↔
      Traced M P i k p (fun b ↦ Traced M P i k (f b) Q E) E own := by
  induction p generalizing own with
  | ret b => exact Iff.rfl
  | fail e => exact Iff.rfl
  | stmt q next ih => simp only [Prog.stmt_bind, traced_stmt, ih]

theorem traced_bindBoth {p : Prog Res ε' β} {f : Except ε' β → Prog Res ε'' γ}
    {Q : γ → List (Event ι σ κ ε α) → Prop} {E : ε'' → List (Event ι σ κ ε α) → Prop} :
    Traced M P i k (p.bindBoth f) Q E own ↔
      Traced M P i k p (fun b ↦ Traced M P i k (f (.ok b)) Q E)
        (fun e ↦ Traced M P i k (f (.error e)) Q E) own := by
  induction p generalizing own with
  | ret b => exact Iff.rfl
  | fail e => exact Iff.rfl
  | stmt q next ih => simp only [Prog.bindBoth, traced_stmt, ih]

theorem traced_mapErr {p : Prog Res ε' β} {f : ε' → ε''} {E : ε'' → List (Event ι σ κ ε α) → Prop} :
    Traced M P i k (p.mapErr f) Q E own ↔ Traced M P i k p Q (fun e ↦ E (f e)) own :=
  traced_bindBoth

@[simp] theorem traced_okOr (e : ε') (o : Option β) : Traced M P i k (Prog.okOr e o) Q E own ↔
    (∀ b, o = some b → Q b own) ∧ (o = none → E e own) := by
  cases o <;> simp

@[simp] theorem traced_ensure (c : Prop) [Decidable c] (e : ε')
    {Q : Unit → List (Event ι σ κ ε α) → Prop} :
    Traced M P i k (Prog.ensure c e) Q E own ↔ (c → Q () own) ∧ (¬c → E e own) := by
  by_cases h : c <;> simp [Prog.ensure, h]

/-- Where a program goes does not depend on what is asked of its statements. -/
theorem Traced.of_only {P' : Event ι σ κ ε α → List (Event ι σ κ ε α) → Prop} {S : ι → Prop}
    {p : Prog Res ε' β} (h : Traced M P i k p Q E own) (hp : p.Only S)
    (hS : ∀ q, S q → ∀ s own, P' (.ran i k q s) own) : Traced M P' i k p Q E own := by
  induction p generalizing own with
  | ret b => exact h
  | fail e => exact h
  | stmt q next ih =>
      obtain ⟨hran, hfault⟩ := h
      exact ⟨fun s ↦ ⟨hS q hp.1 s own, ih _ (hran s).2 (hp.2 _)⟩,
        fun r hr ↦ ih r (hfault r hr) (hp.2 r)⟩

/-- A program does on a larger machine what it does on its own, seen through `view` and `back`. -/
theorem Traced.lift {ι' σ' η' κ' α' : Type} {Res' : ι' → Type} {M' : Machine Res' σ' η'}
    {P' : Event ι' σ' κ' ε α' → List (Event ι' σ' κ' ε α') → Prop} {k' : κ'} {f : ι → ι'}
    {answer : ∀ q, Res' (f q) → Res q} (view : σ' → σ)
    (back : List (Event ι' σ' κ' ε α') → List (Event ι σ κ ε α))
    (hexec : ∀ q s, answer q (M'.exec (f q) s).1 = (M.exec q (view s)).1)
    (hfault : ∀ q, ∀ r ∈ M'.fault (f q), answer q r ∈ M.fault q)
    (hback : ∀ q s own', back (.ran i k' (f q) s :: own') = .ran i k q (view s) :: back own')
    (hP : ∀ q s own', P (.ran i k q (view s)) (back own') → P' (.ran i k' (f q) s) own')
    {p : Prog Res ε' β} {own' : List (Event ι' σ' κ' ε α')} (h : Traced M P i k p Q E (back own')) :
    Traced M' P' i k' (p.lift f answer) (fun b own' ↦ Q b (back own'))
      (fun e own' ↦ E e (back own')) own' := by
  induction p generalizing own' with
  | ret b => exact h
  | fail e => exact h
  | stmt q next ih =>
      obtain ⟨hran, hlost⟩ := h
      refine ⟨fun s ↦ ⟨hP q s own' (hran (view s)).1, ?_⟩, fun r hr ↦ ?_⟩
      · apply ih
        rw [hback, hexec]
        exact (hran (view s)).2
      · exact ih _ (hlost _ (hfault q r hr))

/-- A program whose statements keep `A` keeps it. -/
theorem traced_of_only {S : ι → Prop} {A : List (Event ι σ κ ε α) → Prop} {R : β → Prop}
    {p : Prog Res ε' β} (hp : p.Only S) (hR : p.Returns R)
    (hS : ∀ q, S q → ∀ s own, A own → P (.ran i k q s) own ∧ A (.ran i k q s :: own))
    (h : A own) : Traced M P i k p (fun b own ↦ R b ∧ A own) (fun _ ↦ A) own := by
  induction p generalizing own with
  | ret b => exact ⟨hR, h⟩
  | fail e => exact h
  | stmt q next ih =>
      refine ⟨fun s ↦ ?_, fun r _ ↦ ih r (hp.2 r) (hR r) h⟩
      obtain ⟨hP, hA⟩ := hS q hp.1 s own h
      exact ⟨hP, ih _ (hp.2 _) (hR _) hA⟩

/-- A program of which only its answer matters: what the thread did before stays done. -/
theorem traced_of_quiet {S : ι → Prop} {R : β → Prop} {p : Prog Res ε' β} (hp : p.Only S)
    (hR : p.Returns R) (hS : ∀ q, S q → ∀ s own, P (.ran i k q s) own)
    (hQ : ∀ b own', R b → own ⊆ own' → Q b own') (hE : ∀ e own', own ⊆ own' → E e own') :
    Traced M P i k p Q E own :=
  (traced_of_only (A := fun own' ↦ own ⊆ own') hp hR
    (fun q hq s own' h ↦ ⟨hS q hq s own', List.subset_cons_of_subset _ h⟩)
      (List.Subset.refl own)).mono
      (fun b own' h ↦ hQ b own' h.1 h.2) hE

theorem Traces.of_only {handle : κ → Prog Res ε α} {S : ι → Prop} (hp : (handle k).Only S)
    (hS : ∀ q, S q → ∀ i s own, P (.ran i k q s) own)
    (ha : ∀ i a s own, P (.answered i k a s) own) :
    Traces M P k handle := fun i ↦
  (traced_of_only (A := fun _ ↦ True) hp (Prog.returns_true _)
    (fun q hq s own _ ↦ ⟨hS q hq i s own, trivial⟩) trivial).mono
      (fun a own _ s ↦ ha i (.ok a) s own) fun e own _ s ↦ ha i (.error e) s own

end Traced

/-! ## All runs -/

section Runs

variable {M : Machine Res σ η} {P : Event ι σ κ ε α → List (Event ι σ κ ε α) → Prop}
  {handle : κ → Prog Res ε α} {allowed : κ → Prop} {s : σ} {c : Config Res σ κ ε α}

/-- `P` of every event and what its own thread did before. -/
def AlongOwn (P : Event ι σ κ ε α → List (Event ι σ κ ε α) → Prop) (e : Event ι σ κ ε α)
    (earlier : List (Event ι σ κ ε α)) : Prop := P e (ownEvents e.tid earlier)

instance {P : Event ι σ κ ε α → List (Event ι σ κ ε α) → Prop} [∀ e own, Decidable (P e own)]
    (e : Event ι σ κ ε α) (earlier : List (Event ι σ κ ε α)) : Decidable (AlongOwn P e earlier) :=
  inferInstanceAs (Decidable (P e (ownEvents e.tid earlier)))

/-- What every thread did by itself. -/
theorem Along.ownEvents {h : List (Event ι σ κ ε α)} (hP : Along (AlongOwn P) h) (i : ℕ) :
    Along P (Interleave.ownEvents i h) := by
  induction h with
  | nil => trivial
  | cons e h ih =>
      unfold Interleave.ownEvents
      rw [List.filter_cons]
      split
      next hi =>
        obtain rfl : e.tid = i := by simpa using hi
        exact ⟨hP.1, ih hP.2⟩
      next => exact ih hP.2

theorem wp_of_traced {i : ℕ} {k : κ} {p : Prog Res ε' β} {Q : β → List (Event ι σ κ ε α) → Prop}
    {E : ε' → List (Event ι σ κ ε α) → Prop} {W : World ι σ κ ε α}
    (h : Traced M P i k p Q E (ownEvents i W.history))
    (hW : (Discipline.along (AlongOwn P)).Inv W) :
    wp M (.along (AlongOwn P)) i k p
      (fun b W ↦ Q b (ownEvents i W.history) ∧ (Discipline.along (AlongOwn P)).Inv W)
      (fun e W ↦ E e (ownEvents i W.history) ∧ (Discipline.along (AlongOwn P)).Inv W) W := by
  induction p generalizing W with
  | ret b => exact ⟨h, hW⟩
  | fail e => exact ⟨h, hW⟩
  | stmt q next ih =>
      intro W' hW'
      rw [← hW'.ownEvents_eq] at h
      obtain ⟨hran, hfault⟩ := h
      obtain ⟨hP, hnext⟩ := hran W'.store
      have hkeep : (Discipline.along (AlongOwn P)).Keeps W' (W'.ran M i k q) :=
        Discipline.keeps_along_ran.mpr ⟨hP, hW'.inv⟩
      refine ⟨⟨hkeep, ih _ ?_ hkeep.1⟩, fun r hr ↦ ih r (hfault r hr) hW'.inv⟩
      rwa [ownEvents_ran]

theorem Traces.handles {k : κ} (h : Traces M P k handle) :
    Handles M (.along (AlongOwn P)) k handle := by
  have answers : ∀ (i : ℕ) (a : Except ε α) (W : World ι σ κ ε α),
      Delivers P i k a (ownEvents i W.history) → Answers (.along (AlongOwn P)) i k a W := by
    intro i a W ha W' hW'
    rw [← hW'.ownEvents_eq] at ha
    exact Discipline.keeps_along_answered.mpr ⟨ha W'.store, hW'.inv⟩
  intro i W hW hlt
  have hstart := h i
  rw [← ownEvents_of_lt hlt] at hstart
  exact (wp_of_traced hstart hW).mono (fun a W h ↦ answers i _ W h.1) fun e W h ↦ answers i _ W h.1

/-- What every handler does alone, every thread does in every interleaving. -/
theorem Reachable.traces (hc : Reachable M handle allowed s c)
    (h : ∀ k, allowed k → Traces M P k handle) : Along (AlongOwn P) c.world.history :=
  hc.along fun k hk ↦ (h k hk).handles

/-- A thread serves one request. -/
theorem Reachable.request_eq (hc : Reachable M handle allowed s c) {e₁ e₂ : Event ι σ κ ε α}
    (h₁ : e₁ ∈ c.world.history) (h₂ : e₂ ∈ c.world.history) (htid : e₁.tid = e₂.tid) :
    e₁.request = e₂.request := by
  let P : Event ι σ κ ε α → List (Event ι σ κ ε α) → Prop := fun e own ↦
    ∀ x ∈ own, x.request = e.request
  have hP : ∀ k, allowed k → Traces M P k handle := fun k _ i ↦
    (traced_of_only (A := fun own ↦ ∀ x ∈ own, x.request = k) (Prog.only_true _)
      (Prog.returns_true _) (fun q _ s own hown ↦ ⟨hown, by simpa using hown⟩) (by simp)).mono
        (fun _ _ h _ ↦ h.2) fun _ _ h _ ↦ h
  have hearlier : ∀ later x earlier, c.world.history = later ++ x :: earlier →
      ∀ y ∈ earlier, y.tid = x.tid → y.request = x.request := by
    intro later x earlier hhist y hy hyx
    have hown : ∀ y ∈ ownEvents x.tid earlier, y.request = x.request :=
      Along.of_append (P := AlongOwn P) (hhist ▸ hc.traces hP)
    exact hown y (mem_ownEvents.mpr ⟨hy, hyx⟩)
  obtain ⟨later, earlier, hhist⟩ := List.append_of_mem h₁
  rw [hhist] at h₂
  rcases List.mem_append.mp h₂ with hlater | hrest
  · obtain ⟨l, mid, rfl⟩ := List.append_of_mem hlater
    exact hearlier l e₂ (mid ++ e₁ :: earlier) (by simp [hhist]) e₁ (by simp) htid
  · rcases List.mem_cons.mp hrest with rfl | hmem
    · rfl
    · exact (hearlier later e₁ earlier hhist e₂ hmem htid.symm).symm

end Runs

end Interleave
