import ApiStarter.Interleave.Relabel

/-!
# What is learnt on the way

A handler may ask somebody outside in the middle of its program.  What it is
told there can be thought of as known from the start: as long as the guess turns
out right, the program does what one does that only looks its guess up.  A run
has its guesses before it is over, so what holds of all runs of the programs that
look up holds of those that ask.
-/

namespace Interleave

variable {ι σ κ κ' η ε ε' α β : Type} {Res : ι → Type}

/-- On stores that are as guessed, `p'` does what `p` does. -/
def Prog.AsGuessed (M : Machine Res σ η) (ok : ι → σ → Prop) :
    Prog Res ε β → Prog Res ε β → Prop
  | .ret b, p' => p' = .ret b
  | .fail e, p' => p' = .fail e
  | .stmt q next, p' => ∃ next', p' = .stmt q next' ∧
      (∀ s, ok q s → (next (M.exec q s).1).AsGuessed M ok (next' (M.exec q s).1)) ∧
        ∀ r, M.fault q = some r → (next r).AsGuessed M ok (next' r)

section Programs

variable {M : Machine Res σ η} {ok : ι → σ → Prop}

@[simp] theorem Prog.AsGuessed.refl (p : Prog Res ε β) : p.AsGuessed M ok p := by
  induction p with
  | ret b => rfl
  | fail e => rfl
  | stmt q next ih => exact ⟨next, rfl, fun s _ ↦ ih _, fun r _ ↦ ih r⟩

theorem Prog.AsGuessed.of_eq {p p' : Prog Res ε β} (h : p = p') : p.AsGuessed M ok p' :=
  h ▸ .refl p

theorem Prog.AsGuessed.symm {p p' : Prog Res ε β} (h : p.AsGuessed M ok p') :
    p'.AsGuessed M ok p := by
  induction p generalizing p' with
  | ret b => exact .of_eq h
  | fail e => exact .of_eq h
  | stmt q next ih =>
      obtain ⟨next', rfl, hnext, hfault⟩ := h
      exact ⟨next, rfl, fun s hs ↦ ih _ (hnext s hs), fun r hr ↦ ih r (hfault r hr)⟩

theorem Prog.AsGuessed.bindBoth {p p' : Prog Res ε α} {f f' : Except ε α → Prog Res ε' β}
    (hp : p.AsGuessed M ok p') (hf : ∀ r, (f r).AsGuessed M ok (f' r)) :
    (p.bindBoth f).AsGuessed M ok (p'.bindBoth f') := by
  induction p generalizing p' with
  | ret a =>
      obtain rfl : p' = .ret a := hp
      exact hf (.ok a)
  | fail e =>
      obtain rfl : p' = .fail e := hp
      exact hf (.error e)
  | stmt q next ih =>
      obtain ⟨next', rfl, hnext, hfault⟩ := hp
      exact ⟨_, rfl, fun s hs ↦ ih _ (hnext s hs), fun r hr ↦ ih r (hfault r hr)⟩

theorem Prog.AsGuessed.bind {p p' : Prog Res ε α} {f f' : α → Prog Res ε β}
    (hp : p.AsGuessed M ok p') (hf : ∀ a, (f a).AsGuessed M ok (f' a)) :
    (p >>= f).AsGuessed M ok (p' >>= f') := by
  induction p generalizing p' with
  | ret a =>
      obtain rfl : p' = .ret a := hp
      exact hf a
  | fail e =>
      obtain rfl : p' = .fail e := hp
      exact .refl _
  | stmt q next ih =>
      obtain ⟨next', rfl, hnext, hfault⟩ := hp
      exact ⟨_, rfl, fun s hs ↦ ih _ (hnext s hs), fun r hr ↦ ih r (hfault r hr)⟩

end Programs

/-! ## Runs -/

/-- The requests in flight follow those that are in flight under the labels `f`. -/
structure Config.AsGuessed (M : Machine Res σ η) (ok : ℕ → κ → ι → σ → Prop) (f : ℕ → κ → κ')
    (c : Config Res σ κ ε α) (c' : Config Res σ κ' ε α) : Prop where
  world : c'.world = c.world.relabel f
  length : c'.pool.length = c.pool.length
  rest : ∀ (i : ℕ) k p, c.pool[i]? = some ⟨k, some p⟩ →
    ∃ p', c'.pool[i]? = some ⟨f i k, some p'⟩ ∧ p.AsGuessed M (ok i k) p'

section Runs

variable {M : Machine Res σ η} {ok : ℕ → κ → ι → σ → Prop} {f : ℕ → κ → κ'}
  {c : Config Res σ κ ε α} {c' : Config Res σ κ' ε α}

theorem Config.AsGuessed.start (h : c.AsGuessed M ok f c') {k : κ} {p p' : Prog Res ε α}
    (hp : p.AsGuessed M (ok c.pool.length k) p') :
    Config.AsGuessed M ok f ⟨c.world, c.pool ++ [⟨k, some p⟩]⟩
      ⟨c'.world, c'.pool ++ [⟨f c.pool.length k, some p'⟩]⟩ where
  world := h.world
  length := by simp [h.length]
  rest i k' p₁ hi := by
    rcases Nat.lt_or_ge i c.pool.length with hlt | hge
    · rw [List.getElem?_append_left hlt] at hi
      obtain ⟨p₁', hi', hguessed⟩ := h.rest i k' p₁ hi
      exact ⟨p₁', by rw [List.getElem?_append_left (h.length ▸ hlt), hi'], hguessed⟩
    · have hlast : i = c.pool.length := by
        have hlt := (List.getElem?_eq_some_iff.mp hi).1
        rw [List.length_append, List.length_singleton] at hlt
        omega
      subst hlast
      rw [List.getElem?_concat_length] at hi
      obtain ⟨rfl, hrest⟩ := Thread.mk.inj (Option.some.inj hi)
      obtain rfl := Option.some.inj hrest
      exact ⟨p', by rw [← h.length, List.getElem?_concat_length], hp⟩

theorem Config.AsGuessed.setRest (h : c.AsGuessed M ok f c') {i : ℕ} {k : κ}
    (hi : i < c.pool.length) {r r' : Option (Prog Res ε α)} {W : World ι σ κ ε α}
    (hr : ∀ p, r = some p → ∃ p', r' = some p' ∧ p.AsGuessed M (ok i k) p') :
    (c.setRest i k r W).AsGuessed M ok f (c'.setRest i (f i k) r' (W.relabel f)) where
  world := rfl
  length := by simp [Config.setRest, h.length]
  rest j k' p hj := by
    by_cases hij : i = j
    · subst hij
      simp only [Config.setRest, List.getElem?_set_self hi] at hj
      obtain ⟨rfl, hp⟩ := Thread.mk.inj (Option.some.inj hj)
      obtain ⟨p', rfl, hguessed⟩ := hr p hp
      exact ⟨p', by simp only [Config.setRest, List.getElem?_set_self (h.length ▸ hi)], hguessed⟩
    · simp only [Config.setRest, List.getElem?_set_ne hij] at hj ⊢
      exact h.rest j k' p hj

variable {handle : κ → Prog Res ε α} {handle' : κ' → Prog Res ε α} {allowed : κ → Prop}
  {allowed' : κ' → Prop} {s : σ}

/-- A run whose statements find what was guessed is one of the programs that look the guesses
up. -/
theorem Reachable.as_guessed (hc : Reachable M handle allowed s c)
    (hhandle : ∀ i k, allowed k → (handle k).AsGuessed M (ok i k) (handle' (f i k)))
    (hallowed : ∀ i k, allowed k → allowed' (f i k))
    (hok : ∀ i k q b, .ran i k q b ∈ c.world.history → ok i k q b) :
    ∃ c', Reachable M handle' allowed' s c' ∧ c.AsGuessed M ok f c' := by
  induction hc with
  | initial => exact ⟨.initial s, .initial, rfl, rfl, by simp [Config.initial]⟩
  | @step c₁ c₂ a _ ha h ih =>
      have bound {i : ℕ} {t : Thread Res κ ε α} (hi : c₁.pool[i]? = some t) :
          i < c₁.pool.length := (List.getElem?_eq_some_iff.mp hi).1
      rcases Config.perform_cases h with ⟨k, rfl, rfl⟩ | ⟨i, k, q, next, rfl, hi, rfl⟩ |
        ⟨i, k, q, next, r, rfl, hi, hr, rfl⟩ | ⟨i, k, rfl, ⟨b, hi, rfl⟩ | ⟨e, hi, rfl⟩⟩ |
        ⟨i, k, p, rfl, hi, rfl⟩ | ⟨x, rfl, rfl⟩
      · obtain ⟨c', hc', hguessed⟩ := ih hok
        refine ⟨_, hc'.step (.start (f c₁.pool.length k)) (hallowed _ k ha) rfl, ?_⟩
        exact hguessed.start (hhandle _ k ha)
      · obtain ⟨c', hc', hguessed⟩ := ih fun j k' q' b hran ↦
          hok j k' q' b (List.mem_cons_of_mem _ hran)
        obtain ⟨p', hi', next', rfl, hnext, -⟩ := hguessed.rest i k _ hi
        have hrest := hnext c₁.world.store (hok i k q _ List.mem_cons_self)
        refine ⟨_, hc'.step (.run i) trivial ?_,
          hguessed.setRest (bound hi) fun p hp ↦ ⟨_, rfl, Option.some.inj hp ▸ hrest⟩⟩
        simp only [Config.perform, hi', hguessed.world]
        rfl
      · obtain ⟨c', hc', hguessed⟩ := ih hok
        obtain ⟨p', hi', next', rfl, -, hfault⟩ := hguessed.rest i k _ hi
        refine ⟨_, hc'.step (.fault i) trivial ?_,
          hguessed.setRest (bound hi) fun p hp ↦ ⟨_, rfl, Option.some.inj hp ▸ hfault r hr⟩⟩
        simp only [Config.perform, hi', hr, hguessed.world]
        rfl
      · obtain ⟨c', hc', hguessed⟩ := ih fun j k' q' b hran ↦
          hok j k' q' b (List.mem_cons_of_mem _ hran)
        obtain ⟨p', hi', rfl⟩ := hguessed.rest i k _ hi
        refine ⟨c'.setRest i (f i k) none ((c₁.world.answered i k (.ok b)).relabel f),
          hc'.step (.answer i) trivial ?_, hguessed.setRest (bound hi) (by rintro _ ⟨⟩)⟩
        simp only [Config.perform, hi', hguessed.world]
        rfl
      · obtain ⟨c', hc', hguessed⟩ := ih fun j k' q' b hran ↦
          hok j k' q' b (List.mem_cons_of_mem _ hran)
        obtain ⟨p', hi', rfl⟩ := hguessed.rest i k _ hi
        refine ⟨c'.setRest i (f i k) none ((c₁.world.answered i k (.error e)).relabel f),
          hc'.step (.answer i) trivial ?_, hguessed.setRest (bound hi) (by rintro _ ⟨⟩)⟩
        simp only [Config.perform, hi', hguessed.world]
        rfl
      · obtain ⟨c', hc', hguessed⟩ := ih hok
        obtain ⟨p', hi', -⟩ := hguessed.rest i k _ hi
        refine ⟨c'.setRest i (f i k) none (c₁.world.relabel f), hc'.step (.cut i) trivial ?_,
          hguessed.setRest (bound hi) (by rintro _ ⟨⟩)⟩
        simp only [Config.perform, hi', hguessed.world]
      · obtain ⟨c', hc', hguessed⟩ := ih hok
        refine ⟨_, hc'.step (.env x) trivial rfl, ?_, hguessed.length, hguessed.rest⟩
        rw [hguessed.world]
        rfl

end Runs

end Interleave
