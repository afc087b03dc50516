import ApiStarter.Interleave.Histories

/-!
# Rely-guarantee reasoning for interleaved requests

A discipline is an invariant of worlds together with what one request may rely
on between two of its own statements.  `wp` walks through a single handler and
`Reachable.invariant` turns one such walk per request into an invariant of all
interleavings.
-/

namespace Interleave

variable {ι σ κ η ε ε' α β : Type} {Res : ι → Type}

structure Discipline (ι σ κ ε α : Type) where
  Inv : World ι σ κ ε α → Prop
  Rely : World ι σ κ ε α → World ι σ κ ε α → Prop
  refl : ∀ W, Rely W W
  trans : ∀ {W₁ W₂ W₃}, Rely W₁ W₂ → Rely W₂ W₃ → Rely W₁ W₃

/-- The events of thread `i`, newest first. -/
def ownEvents (i : ℕ) (h : List (Event ι σ κ ε α)) : List (Event ι σ κ ε α) :=
  h.filter fun e ↦ decide (e.tid = i)

@[simp] theorem mem_ownEvents {i : ℕ} {h : List (Event ι σ κ ε α)} {e : Event ι σ κ ε α} :
    e ∈ ownEvents i h ↔ e ∈ h ∧ e.tid = i := by
  simp [ownEvents]

@[simp] theorem ownEvents_ran (M : Machine Res σ η) (i : ℕ) (k : κ) (q : ι) (W : World ι σ κ ε α) :
    ownEvents i (W.ran M i k q).history = .ran i k q W.store :: ownEvents i W.history := by
  simp [ownEvents]

theorem ownEvents_of_lt {i : ℕ} {h : List (Event ι σ κ ε α)} (hlt : ∀ e ∈ h, e.tid < i) :
    ownEvents i h = [] :=
  List.filter_eq_nil_iff.mpr fun e he ↦ by simpa using Nat.ne_of_lt (hlt e he)

theorem ownEvents_split (later earlier : List (Event ι σ κ ε α)) (e : Event ι σ κ ε α) :
    ownEvents e.tid (later ++ e :: earlier) =
      ownEvents e.tid later ++ e :: ownEvents e.tid earlier := by
  simp [ownEvents]

/-- A split of what a thread did is a split of the history. -/
theorem exists_of_ownEvents {i : ℕ} {h l₁ l₂ : List (Event ι σ κ ε α)} {e : Event ι σ κ ε α}
    (hown : ownEvents i h = l₁ ++ e :: l₂) :
    ∃ newer older, h = newer ++ e :: older ∧ ownEvents i newer = l₁ ∧ ownEvents i older = l₂ := by
  obtain ⟨newer, rest, rfl, hnewer, hrest⟩ := List.filter_eq_append_iff.mp hown
  obtain ⟨others, older, rfl, hothers, -, holder⟩ := List.filter_eq_cons_iff.mp hrest
  refine ⟨newer ++ others, older, by simp, ?_, holder⟩
  rw [ownEvents, List.filter_append, hnewer, List.filter_eq_nil_iff.mpr hothers, List.append_nil]

namespace Discipline

variable (D : Discipline ι σ κ ε α)

/-- A guaranteed step: the invariant holds afterwards and others may rely on it. -/
def Keeps (W W' : World ι σ κ ε α) : Prop := D.Inv W' ∧ D.Rely W W'

/-- What thread `i` finds at its next statement: a world that satisfies the
invariant, reached by steps in `Rely` none of which are its own. -/
structure Evolves (i : ℕ) (W W' : World ι σ κ ε α) : Prop where
  rely : D.Rely W W'
  inv : D.Inv W'
  others : ∃ new, W'.history = new ++ W.history ∧ ∀ e ∈ new, e.tid ≠ i

variable {D}

theorem Evolves.trans {i : ℕ} {W₁ W₂ W₃ : World ι σ κ ε α}
    (h₁ : D.Evolves i W₁ W₂) (h₂ : D.Evolves i W₂ W₃) : D.Evolves i W₁ W₃ := by
  obtain ⟨new₁, hnew₁, hother₁⟩ := h₁.others
  obtain ⟨new₂, hnew₂, hother₂⟩ := h₂.others
  refine ⟨D.trans h₁.rely h₂.rely, h₂.inv, new₂ ++ new₁, ?_, ?_⟩
  · rw [hnew₂, hnew₁, List.append_assoc]
  · intro e he
    rcases List.mem_append.mp he with he | he
    · exact hother₂ e he
    · exact hother₁ e he

theorem Evolves.mem {i : ℕ} {W W' : World ι σ κ ε α} (h : D.Evolves i W W')
    {e : Event ι σ κ ε α} (he : e ∈ W.history) : e ∈ W'.history := by
  obtain ⟨new, hnew, -⟩ := h.others
  rw [hnew]
  exact List.mem_append_right new he

theorem Evolves.ownEvents_eq {i : ℕ} {W W' : World ι σ κ ε α} (h : D.Evolves i W W') :
    ownEvents i W'.history = ownEvents i W.history := by
  obtain ⟨new, hnew, hother⟩ := h.others
  rw [hnew, ownEvents, List.filter_append, List.filter_eq_nil_iff.mpr fun e he ↦ by
    simpa using hother e he, List.nil_append, ownEvents]

end Discipline

/-! ## Weakest preconditions -/

section Wp

variable (M : Machine Res σ η) (D : Discipline ι σ κ ε α) (i : ℕ) (k : κ)

/-- From `W` on, thread `i` serving `k` keeps the discipline at every statement
of the program, and ends in `Q` or in `E`. -/
def wp : Prog Res ε' β → (β → World ι σ κ ε α → Prop) → (ε' → World ι σ κ ε α → Prop) →
    World ι σ κ ε α → Prop
  | .ret b, Q, _, W => Q b W
  | .fail e, _, E, W => E e W
  | .stmt q next, Q, E, W => ∀ W', D.Evolves i W W' →
      (D.Keeps W' (W'.ran M i k q) ∧ wp (next (M.exec q W'.store).1) Q E (W'.ran M i k q)) ∧
        ∀ r ∈ M.fault q, wp (next r) Q E W'

/-- Whenever the answer `a` is delivered, the discipline is kept. -/
def Answers (a : Except ε α) (W : World ι σ κ ε α) : Prop :=
  ∀ W', D.Evolves i W W' → D.Keeps W' (W'.answered i k a)

/-- Thread `i` may go on with `p` from `W`. -/
def Proceeds (p : Prog Res ε α) (W : World ι σ κ ε α) : Prop :=
  wp M D i k p (fun a ↦ Answers D i k (.ok a)) (fun e ↦ Answers D i k (.error e)) W

/-- The handler of `k` keeps the discipline whenever and under whatever fresh
thread number it is started. -/
def Handles (handle : κ → Prog Res ε α) : Prop :=
  ∀ i W, D.Inv W → (∀ e ∈ W.history, e.tid < i) → Proceeds M D i k (handle k) W

variable {M D i k} {Q Q' : β → World ι σ κ ε α → Prop} {E E' : ε' → World ι σ κ ε α → Prop}
  {W W' : World ι σ κ ε α}

@[simp] theorem wp_ret (b : β) : wp M D i k (.ret b : Prog Res ε' β) Q E W ↔ Q b W := Iff.rfl

@[simp] theorem wp_fail (e : ε') : wp M D i k (.fail e : Prog Res ε' β) Q E W ↔ E e W := Iff.rfl

theorem wp_stmt (q : ι) (next : Res q → Prog Res ε' β) :
    wp M D i k (.stmt q next) Q E W ↔ ∀ W', D.Evolves i W W' →
      (D.Keeps W' (W'.ran M i k q) ∧ wp M D i k (next (M.exec q W'.store).1) Q E (W'.ran M i k q)) ∧
        ∀ r ∈ M.fault q, wp M D i k (next r) Q E W' := Iff.rfl

theorem wp.mono {p : Prog Res ε' β} (h : wp M D i k p Q E W)
    (hQ : ∀ b W, Q b W → Q' b W) (hE : ∀ e W, E e W → E' e W) : wp M D i k p Q' E' W := by
  induction p generalizing W with
  | ret b => exact hQ b W h
  | fail e => exact hE e W h
  | stmt q next ih =>
      intro W' hW'
      obtain ⟨⟨hkeep, hnext⟩, hfault⟩ := h W' hW'
      exact ⟨⟨hkeep, ih _ hnext⟩, fun r hr ↦ ih r (hfault r hr)⟩

theorem wp_bind {γ : Type} {p : Prog Res ε' β} {f : β → Prog Res ε' γ}
    {Q : γ → World ι σ κ ε α → Prop} :
    wp M D i k (p >>= f) Q E W ↔ wp M D i k p (fun b ↦ wp M D i k (f b) Q E) E W := by
  induction p generalizing W with
  | ret b => exact Iff.rfl
  | fail e => exact Iff.rfl
  | stmt q next ih => simp only [Prog.stmt_bind, wp_stmt, ih]

theorem wp_ask (q : ι) {Q : Res q → World ι σ κ ε α → Prop} :
    wp M D i k (Prog.ask q) Q E W ↔ ∀ W', D.Evolves i W W' →
      (D.Keeps W' (W'.ran M i k q) ∧ Q (M.exec q W'.store).1 (W'.ran M i k q)) ∧
        ∀ r ∈ M.fault q, Q r W' := Iff.rfl

@[simp] theorem wp_okOr (e : ε') (o : Option β) :
    wp M D i k (Prog.okOr e o) Q E W ↔ (∀ b, o = some b → Q b W) ∧ (o = none → E e W) := by
  cases o <;> simp

@[simp] theorem wp_ensure (c : Prop) [Decidable c] (e : ε') {Q : Unit → World ι σ κ ε α → Prop} :
    wp M D i k (Prog.ensure c e) Q E W ↔ (c → Q () W) ∧ (¬c → E e W) := by
  by_cases h : c <;> simp [Prog.ensure, h]

theorem wp_bindBoth {γ ε'' : Type} {p : Prog Res ε' β} {f : Except ε' β → Prog Res ε'' γ}
    {Q : γ → World ι σ κ ε α → Prop} {E : ε'' → World ι σ κ ε α → Prop} :
    wp M D i k (p.bindBoth f) Q E W ↔
      wp M D i k p (fun b ↦ wp M D i k (f (.ok b)) Q E)
        (fun e ↦ wp M D i k (f (.error e)) Q E) W := by
  induction p generalizing W with
  | ret b => exact Iff.rfl
  | fail e => exact Iff.rfl
  | stmt q next ih => simp only [Prog.bindBoth, wp_stmt, ih]

/-- A thread may wait: what it could do from `W` it can still do later. -/
theorem Proceeds.evolve {p : Prog Res ε α} (h : Proceeds M D i k p W)
    (hW : D.Evolves i W W') : Proceeds M D i k p W' := by
  cases p with
  | ret a => exact fun W'' hW'' ↦ h W'' (hW.trans hW'')
  | fail e => exact fun W'' hW'' ↦ h W'' (hW.trans hW'')
  | stmt q next => exact fun W'' hW'' ↦ h W'' (hW.trans hW'')

/-- A program whose statements are all harmless needs no local reasoning. -/
theorem wp_of_only {S : ι → Prop} {P : β → Prop} {p : Prog Res ε' β} (hp : p.Only S)
    (hP : p.Returns P) (hS : ∀ q, S q → ∀ W, D.Inv W → D.Keeps W (W.ran M i k q))
    (hQ : ∀ b W, P b → D.Inv W → Q b W) (hE : ∀ e W, D.Inv W → E e W) (hW : D.Inv W) :
    wp M D i k p Q E W := by
  induction p generalizing W with
  | ret b => exact hQ b W hP hW
  | fail e => exact hE e W hW
  | stmt q next ih =>
      intro W' hW'
      have hkeep := hS q hp.1 W' hW'.inv
      exact ⟨⟨hkeep, ih _ (hp.2 _) (hP _) hkeep.1⟩, fun r _ ↦ ih r (hp.2 r) (hP r) hW'.inv⟩

/-- A fact `A` that others cannot disturb survives a program whose statements keep it. -/
theorem wp_stable {S : ι → Prop} {A : World ι σ κ ε α → Prop} {p : Prog Res ε' β}
    (hp : p.Only S)
    (hS : ∀ q, S q → ∀ W, D.Inv W → A W → D.Keeps W (W.ran M i k q) ∧ A (W.ran M i k q))
    (hA : ∀ W W', D.Evolves i W W' → A W → A W') (hW : D.Inv W) (h : A W) :
    wp M D i k p (fun _ W ↦ D.Inv W ∧ A W) (fun _ W ↦ D.Inv W ∧ A W) W := by
  induction p generalizing W with
  | ret b => exact ⟨hW, h⟩
  | fail e => exact ⟨hW, h⟩
  | stmt q next ih =>
      intro W' hW'
      have h' := hA W W' hW' h
      obtain ⟨hkeep, hran⟩ := hS q hp.1 W' hW'.inv h'
      exact ⟨⟨hkeep, ih _ (hp.2 _) hkeep.1 hran⟩, fun r _ ↦ ih r (hp.2 r) hW'.inv h'⟩

theorem Handles.of_only {handle : κ → Prog Res ε α} {S : ι → Prop} (hp : (handle k).Only S)
    (hS : ∀ q, S q → ∀ i W, D.Inv W → D.Keeps W (W.ran M i k q))
    (ha : ∀ a i W, D.Inv W → D.Keeps W (W.answered i k a)) : Handles M D k handle := by
  intro i W hW _
  refine wp_of_only hp (Prog.returns_true _) (fun q hq W hW ↦ hS q hq i W hW) ?_ ?_ hW
  · exact fun a _ _ _ W' hW' ↦ ha (.ok a) i W' hW'.inv
  · exact fun e _ _ W' hW' ↦ ha (.error e) i W' hW'.inv

/-- Started in any world of the discipline, `p` keeps it at every statement. -/
def Maintains (M : Machine Res σ η) (D : Discipline ι σ κ ε α) (i : ℕ) (k : κ)
    (p : Prog Res ε' β) : Prop :=
  ∀ W, D.Inv W → wp M D i k p (fun _ W ↦ D.Inv W) (fun _ W ↦ D.Inv W) W

theorem Maintains.of_only {p : Prog Res ε' β} {S : ι → Prop} (hp : p.Only S)
    (hS : ∀ q, S q → ∀ W, D.Inv W → D.Keeps W (W.ran M i k q)) : Maintains M D i k p :=
  fun _ hW ↦ wp_of_only hp (Prog.returns_true _) hS (fun _ _ _ h ↦ h) (fun _ _ h ↦ h) hW

theorem Maintains.ret (b : β) : Maintains M D i k (.ret b : Prog Res ε' β) := fun _ hW ↦ hW

theorem Maintains.bind {γ : Type} {p : Prog Res ε' β} {f : β → Prog Res ε' γ}
    (hp : Maintains M D i k p) (hf : ∀ b, Maintains M D i k (f b)) : Maintains M D i k (p >>= f) :=
  fun W hW ↦ wp_bind.mpr ((hp W hW).mono (fun b W hW ↦ hf b W hW) fun _ _ h ↦ h)

theorem Maintains.attempt {ε'' : Type} {p : Prog Res ε' β} (hp : Maintains M D i k p) :
    Maintains M D i k (p.attempt : Prog Res ε'' (Except ε' β)) :=
  fun W hW ↦ wp_bindBoth.mpr ((hp W hW).mono (fun _ _ h ↦ h) fun _ _ h ↦ h)

theorem Maintains.mapErr {ε'' : Type} {f : ε' → ε''} {p : Prog Res ε' β}
    (hp : Maintains M D i k p) : Maintains M D i k (p.mapErr f) :=
  fun W hW ↦ wp_bindBoth.mpr ((hp W hW).mono (fun _ _ h ↦ h) fun _ _ h ↦ h)

theorem Handles.of_maintains {handle : κ → Prog Res ε α}
    (hp : ∀ i, Maintains M D i k (handle k))
    (ha : ∀ a i W, D.Inv W → D.Keeps W (W.answered i k a)) : Handles M D k handle :=
  fun i W hW _ ↦ (hp i W hW).mono (fun a _ _ W' hW' ↦ ha (.ok a) i W' hW'.inv)
    fun e _ _ W' hW' ↦ ha (.error e) i W' hW'.inv

end Wp

/-! ## From one request to all runs -/

section Runs

variable {M : Machine Res σ η} {D : Discipline ι σ κ ε α} {handle : κ → Prog Res ε α}
  {allowed : κ → Prop} {s : σ}

/-- The invariant of a configuration: the world is fine, the history speaks of
threads in the pool only, and every thread in flight may go on. -/
structure Config.Sound (M : Machine Res σ η) (D : Discipline ι σ κ ε α)
    (c : Config Res σ κ ε α) : Prop where
  inv : D.Inv c.world
  tids : ∀ e ∈ c.world.history, e.tid < c.pool.length
  threads : ∀ i k p, c.pool[i]? = some ⟨k, some p⟩ → Proceeds M D i k p c.world

theorem Config.Sound.setRest {c : Config Res σ κ ε α} (hc : c.Sound M D) {i : ℕ} {k : κ}
    {t : Thread Res κ ε α} {p : Option (Prog Res ε α)} {W : World ι σ κ ε α}
    (hi : c.pool[i]? = some t) (hkeep : D.Keeps c.world W)
    (hnew : ∃ new, W.history = new ++ c.world.history ∧ ∀ e ∈ new, e.tid = i)
    (hp : ∀ q, p = some q → Proceeds M D i k q W) :
    (c.setRest i k p W).Sound M D := by
  have hlen : i < c.pool.length := (List.getElem?_eq_some_iff.mp hi).1
  obtain ⟨new, hnew, htid⟩ := hnew
  refine ⟨hkeep.1, ?_, ?_⟩
  · intro e he
    simp only [Config.setRest, List.length_set]
    rcases List.mem_append.mp (hnew ▸ he : e ∈ new ++ c.world.history) with he | he
    · exact (htid e he).symm ▸ hlen
    · exact hc.tids e he
  · intro j k' p' hj
    simp only [Config.setRest] at hj ⊢
    by_cases hij : i = j
    · subst hij
      rw [List.getElem?_set_self hlen] at hj
      simp only [Option.some.injEq, Thread.mk.injEq] at hj
      obtain ⟨rfl, hpeq⟩ := hj
      exact hp p' hpeq
    · rw [List.getElem?_set_ne hij] at hj
      refine (hc.threads j k' p' hj).evolve ⟨hkeep.2, hkeep.1, new, hnew, ?_⟩
      exact fun e he ↦ (htid e he).symm ▸ hij

theorem Config.Sound.step {c c' : Config Res σ κ ε α} {a : Action κ η} (hc : c.Sound M D)
    (hhandle : ∀ k, allowed k → Handles M D k handle)
    (henv : ∀ x W, D.Inv W → D.Keeps W (W.moved M x))
    (ha : a.Starts allowed) (h : c.perform M handle a = some c') : c'.Sound M D := by
  have hrefl : ∀ i, D.Evolves i c.world c.world := fun i ↦
    ⟨D.refl _, hc.inv, [], rfl, by simp⟩
  rcases Config.perform_cases h with ⟨k, rfl, rfl⟩ | ⟨i, k, q, next, rfl, hi, rfl⟩ |
    ⟨i, k, q, next, r, rfl, hi, hr, rfl⟩ | ⟨i, k, rfl, ⟨b, hi, rfl⟩ | ⟨e, hi, rfl⟩⟩ |
    ⟨i, k, p, rfl, hi, rfl⟩ | ⟨x, rfl, rfl⟩
  · refine ⟨hc.inv, fun e he ↦ ?_, fun j k' p' hj ↦ ?_⟩
    · simpa using Nat.lt_succ_of_lt (hc.tids e he)
    · rcases Nat.lt_or_ge j c.pool.length with hlt | hge
      · rw [List.getElem?_append_left hlt] at hj
        exact hc.threads j k' p' hj
      · rw [List.getElem?_append_right hge] at hj
        have hnew := List.mem_singleton.mp (List.mem_of_getElem? hj)
        simp only [Thread.mk.injEq, Option.some.injEq] at hnew
        obtain ⟨rfl, rfl⟩ := hnew
        exact hhandle _ ha j c.world hc.inv fun e he ↦ Nat.lt_of_lt_of_le (hc.tids e he) hge
  · obtain ⟨⟨hkeep, hnext⟩, -⟩ := hc.threads i k _ hi c.world (hrefl i)
    exact hc.setRest hi hkeep ⟨[_], rfl, by simp⟩ fun p hp ↦ by cases hp; exact hnext
  · obtain ⟨-, hfault⟩ := hc.threads i k _ hi c.world (hrefl i)
    exact hc.setRest hi ⟨hc.inv, D.refl _⟩ ⟨[], rfl, by simp⟩
      fun p hp ↦ by cases hp; exact hfault r hr
  · exact hc.setRest hi (hc.threads i k _ hi c.world (hrefl i)) ⟨[_], rfl, by simp⟩ (by simp)
  · exact hc.setRest hi (hc.threads i k _ hi c.world (hrefl i)) ⟨[_], rfl, by simp⟩ (by simp)
  · exact hc.setRest hi ⟨hc.inv, D.refl _⟩ ⟨[], rfl, by simp⟩ (by simp)
  · have hkeep := henv x c.world hc.inv
    refine ⟨hkeep.1, hc.tids, fun j k p hj ↦ ?_⟩
    exact (hc.threads j k p hj).evolve ⟨hkeep.2, hkeep.1, [], rfl, by simp⟩

/-- If every allowed handler keeps the discipline and so does the environment,
the invariant holds in every interleaving. -/
theorem Reachable.invariant {c : Config Res σ κ ε α} (hc : Reachable M handle allowed s c)
    (hinit : D.Inv ⟨s, []⟩) (hhandle : ∀ k, allowed k → Handles M D k handle)
    (henv : ∀ x W, D.Inv W → D.Keeps W (W.moved M x)) : D.Inv c.world := by
  have hsound : c.Sound M D := by
    induction hc with
    | initial => exact ⟨hinit, by simp [Config.initial], by simp [Config.initial]⟩
    | step a _ ha h ih => exact ih.step hhandle henv ha h
  exact hsound.inv

/-- Which request ran which statement is bounded by what its handler contains. -/
theorem Reachable.ran_only {S : κ → ι → Prop} {c : Config Res σ κ ε α}
    (hc : Reachable M handle allowed s c) (hS : ∀ k, allowed k → (handle k).Only (S k)) :
    ∀ i k q b, .ran i k q b ∈ c.world.history → allowed k ∧ S k q := by
  let D : Discipline ι σ κ ε α :=
    { Inv := fun W ↦ ∀ i k q b, .ran i k q b ∈ W.history → allowed k ∧ S k q
      Rely := fun _ _ ↦ True
      refl := fun _ ↦ trivial
      trans := fun _ _ ↦ trivial }
  refine hc.invariant (D := D) (by simp [D]) (fun k hk ↦ ?_) fun x W hW ↦ ⟨hW, trivial⟩
  refine Handles.of_only (hS k hk) (fun q hq i W hW ↦ ⟨?_, trivial⟩) fun a i W hW ↦ ⟨?_, trivial⟩
  · intro i' k' q' b' hmem
    rcases List.mem_cons.mp hmem with heq | hmem
    · cases heq
      exact ⟨hk, hq⟩
    · exact hW i' k' q' b' hmem
  · intro i' k' q' b' hmem
    rcases List.mem_cons.mp hmem with heq | hmem
    · cases heq
    · exact hW i' k' q' b' hmem

/-! ## What a request did before -/

variable {P : Event ι σ κ ε α → List (Event ι σ κ ε α) → Prop}

/-- The discipline of a fact about every event and what preceded it. -/
def Discipline.along (P : Event ι σ κ ε α → List (Event ι σ κ ε α) → Prop) :
    Discipline ι σ κ ε α where
  Inv W := Along P W.history
  Rely _ _ := True
  refl _ := trivial
  trans _ _ := trivial

theorem Discipline.keeps_along_ran {i : ℕ} {k : κ} {q : ι} {W : World ι σ κ ε α} :
    (Discipline.along P).Keeps W (W.ran M i k q) ↔
      P (.ran i k q W.store) W.history ∧ Along P W.history :=
  and_iff_left trivial

theorem Discipline.keeps_along_answered {i : ℕ} {k : κ} {a : Except ε α}
    {W : World ι σ κ ε α} :
    (Discipline.along P).Keeps W (W.answered i k a) ↔
      P (.answered i k a W.store) W.history ∧ Along P W.history :=
  and_iff_left trivial

theorem Handles.along_of_only {k : κ} {S : ι → Prop} (hp : (handle k).Only S)
    (hS : ∀ q, S q → ∀ i b h, P (.ran i k q b) h) (ha : ∀ i a b h, P (.answered i k a b) h) :
    Handles M (Discipline.along P) k handle :=
  .of_only hp (fun q hq i _ hW ↦ Discipline.keeps_along_ran.mpr ⟨hS q hq i _ _, hW⟩)
    fun a i _ hW ↦ Discipline.keeps_along_answered.mpr ⟨ha i a _ _, hW⟩

/-- What every handler does before its events holds along every run. -/
theorem Reachable.along {c : Config Res σ κ ε α} (hc : Reachable M handle allowed s c)
    (hhandle : ∀ k, allowed k → Handles M (Discipline.along P) k handle) :
    Along P c.world.history :=
  hc.invariant trivial hhandle fun _ _ hW ↦ ⟨hW, trivial⟩

end Runs

end Interleave
