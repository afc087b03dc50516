import ApiStarter.Interleave.Runs
import Mathlib.Data.List.Pairwise

/-!
# Histories

What every run has in common, whatever its handlers do: each event happened in
a configuration of its own, and a property of worlds that no statement breaks
holds throughout.  From this follows the law of single use: between two
occasions on which something becomes available it is spent at most once, and
not after it was retired.
-/

namespace Interleave

variable {ι σ κ η ε α : Type} {Res : ι → Type}

namespace Event

/-- The store an event found. -/
def store : Event ι σ κ ε α → σ
  | ran _ _ _ s => s
  | answered _ _ _ s => s

@[simp] theorem store_ran (i : ℕ) (k : κ) (q : ι) (s : σ) :
    (ran i k q s : Event ι σ κ ε α).store = s := rfl
@[simp] theorem store_answered (i : ℕ) (k : κ) (a : Except ε α) (s : σ) :
    (answered i k a s : Event ι σ κ ε α).store = s := rfl

/-- The event ran a statement of which `P` holds on the store it found. -/
def Ran (P : ι → σ → Prop) : Event ι σ κ ε α → Prop
  | ran _ _ q s => P q s
  | answered .. => False

@[simp] theorem ran_Ran (P : ι → σ → Prop) (i : ℕ) (k : κ) (q : ι) (s : σ) :
    (ran i k q s : Event ι σ κ ε α).Ran P ↔ P q s := Iff.rfl
@[simp] theorem answered_Ran (P : ι → σ → Prop) (i : ℕ) (k : κ) (a : Except ε α) (s : σ) :
    ¬(answered i k a s : Event ι σ κ ε α).Ran P := id

end Event

variable {M : Machine Res σ η} {handle : κ → Prog Res ε α} {allowed : κ → Prop} {s : σ}

/-- The steps of the system, one case for each action. -/
theorem Config.perform_cases {c c' : Config Res σ κ ε α} {a : Action κ η}
    (h : c.perform M handle a = some c') :
    (∃ k, a = .start k ∧ c' = ⟨c.world, c.pool ++ [⟨k, some (handle k)⟩]⟩) ∨
    (∃ i k q next, a = .run i ∧ c.pool[i]? = some ⟨k, some (.stmt q next)⟩ ∧
      c' = c.setRest i k (some (next (M.exec q c.world.store).1)) (c.world.ran M i k q)) ∨
    (∃ i k q next r, a = .fault i ∧ c.pool[i]? = some ⟨k, some (.stmt q next)⟩ ∧
      M.fault q = some r ∧ c' = c.setRest i k (some (next r)) c.world) ∨
    (∃ i k, a = .answer i ∧ ((∃ b, c.pool[i]? = some ⟨k, some (.ret b)⟩ ∧
      c' = c.setRest i k none (c.world.answered i k (.ok b))) ∨
      ∃ e, c.pool[i]? = some ⟨k, some (.fail e)⟩ ∧
        c' = c.setRest i k none (c.world.answered i k (.error e)))) ∨
    (∃ i k p, a = .cut i ∧ c.pool[i]? = some ⟨k, some p⟩ ∧ c' = c.setRest i k none c.world) ∨
    ∃ x, a = .env x ∧ c' = ⟨c.world.moved M x, c.pool⟩ := by
  cases a with
  | start k =>
      cases h
      exact .inl ⟨k, rfl, rfl⟩
  | run i =>
      simp only [Config.perform] at h
      split at h
      next hi =>
        cases h
        exact .inr (.inl ⟨i, _, _, _, rfl, hi, rfl⟩)
      next => cases h
  | fault i =>
      simp only [Config.perform] at h
      split at h
      next hi =>
        obtain ⟨r, hr, rfl⟩ := Option.map_eq_some_iff.mp h
        exact .inr (.inr (.inl ⟨i, _, _, _, r, rfl, hi, hr, rfl⟩))
      next => cases h
  | answer i =>
      simp only [Config.perform] at h
      split at h
      next hi =>
        cases h
        exact .inr (.inr (.inr (.inl ⟨i, _, rfl, .inl ⟨_, hi, rfl⟩⟩)))
      next hi =>
        cases h
        exact .inr (.inr (.inr (.inl ⟨i, _, rfl, .inr ⟨_, hi, rfl⟩⟩)))
      next => cases h
  | cut i =>
      simp only [Config.perform] at h
      split at h
      next hi =>
        cases h
        exact .inr (.inr (.inr (.inr (.inl ⟨i, _, _, rfl, hi, rfl⟩))))
      next => cases h
  | env x =>
      cases h
      exact .inr (.inr (.inr (.inr (.inr ⟨x, rfl, rfl⟩))))

/-- What one step can do to the world. -/
theorem Config.perform_world {c c' : Config Res σ κ ε α} {a : Action κ η}
    (h : c.perform M handle a = some c') :
    c'.world = c.world ∨
      (∃ i k q p, c.pool[i]? = some ⟨k, some p⟩ ∧ c'.world = c.world.ran M i k q) ∨
      (∃ i k a p, c.pool[i]? = some ⟨k, some p⟩ ∧ c'.world = c.world.answered i k a) ∨
        ∃ x, c'.world = c.world.moved M x := by
  rcases Config.perform_cases h with ⟨k, -, rfl⟩ | ⟨i, k, q, next, -, hi, rfl⟩ |
    ⟨i, k, q, next, r, -, -, -, rfl⟩ | ⟨i, k, -, ⟨b, hi, rfl⟩ | ⟨e, hi, rfl⟩⟩ |
    ⟨i, k, p, -, -, rfl⟩ | ⟨x, -, rfl⟩
  · exact .inl rfl
  · exact .inr (.inl ⟨i, k, q, _, hi, rfl⟩)
  · exact .inl rfl
  · exact .inr (.inr (.inl ⟨i, k, _, _, hi, rfl⟩))
  · exact .inr (.inr (.inl ⟨i, k, _, _, hi, rfl⟩))
  · exact .inl rfl
  · exact .inr (.inr (.inr ⟨x, rfl⟩))

/-- A property of worlds that nothing breaks holds in every run, whatever the handlers are. -/
theorem Reachable.world_induction {P : World ι σ κ ε α → Prop} {c : Config Res σ κ ε α}
    (hc : Reachable M handle allowed s c) (hinit : P ⟨s, []⟩)
    (hran : ∀ i k q W, P W → P (W.ran M i k q))
    (hanswered : ∀ i k a W, P W → P (W.answered i k a))
    (hmoved : ∀ x W, P W → P (W.moved M x)) : P c.world := by
  induction hc with
  | initial => exact hinit
  | step _ _ _ h ih =>
      rcases Config.perform_world h with hW | ⟨i, k, q, p, -, hW⟩ | ⟨i, k, a, p, -, hW⟩ |
        ⟨x, hW⟩ <;> rw [hW]
      · exact ih
      · exact hran i k q _ ih
      · exact hanswered i k a _ ih
      · exact hmoved x _ ih

/-- Every event of a run happened in a configuration the run went through. -/
theorem Reachable.past {c : Config Res σ κ ε α} (hc : Reachable M handle allowed s c)
    {later earlier : List (Event ι σ κ ε α)} {e : Event ι σ κ ε α}
    (h : c.world.history = later ++ e :: earlier) :
    ∃ c', Reachable M handle allowed s c' ∧ c'.world = ⟨e.store, earlier⟩ := by
  induction hc generalizing later with
  | initial => simp [Config.initial] at h
  | @step d d' a hd _ hp ih =>
      have hnew : ∀ {e₀ : Event ι σ κ ε α}, e₀.store = d.world.store →
          e₀ :: d.world.history = later ++ e :: earlier →
            ∃ c', Reachable M handle allowed s c' ∧ c'.world = ⟨e.store, earlier⟩ := by
        intro e₀ hstore heq
        cases later with
        | nil =>
            obtain ⟨rfl, rfl⟩ := List.cons.inj heq
            exact ⟨d, hd, by rw [hstore]⟩
        | cons _ later => exact ih (List.cons.inj heq).2
      rcases Config.perform_world hp with hW | ⟨i, k, q, p, -, hW⟩ | ⟨i, k, a, p, -, hW⟩ |
        ⟨x, hW⟩ <;> rw [hW] at h
      · exact ih h
      · exact hnew rfl h
      · exact hnew rfl h
      · exact ih h

/-! ## Conditions along a run -/

/-- `P` holds of every event and the history it found. -/
def Along (P : Event ι σ κ ε α → List (Event ι σ κ ε α) → Prop) :
    List (Event ι σ κ ε α) → Prop
  | [] => True
  | e :: earlier => P e earlier ∧ Along P earlier

instance decidableAlong {P : Event ι σ κ ε α → List (Event ι σ κ ε α) → Prop}
    [∀ e h, Decidable (P e h)] : (h : List (Event ι σ κ ε α)) → Decidable (Along P h)
  | [] => .isTrue trivial
  | e :: earlier =>
      haveI := decidableAlong (P := P) earlier
      inferInstanceAs (Decidable (P e earlier ∧ Along P earlier))

theorem Along.of_append {P : Event ι σ κ ε α → List (Event ι σ κ ε α) → Prop}
    {later earlier : List (Event ι σ κ ε α)} {e : Event ι σ κ ε α}
    (h : Along P (later ++ e :: earlier)) : P e earlier := by
  induction later with
  | nil => exact h.1
  | cons _ later ih => exact ih h.2

theorem Along.earlier {P : Event ι σ κ ε α → List (Event ι σ κ ε α) → Prop}
    {later earlier : List (Event ι σ κ ε α)} {e : Event ι σ κ ε α}
    (h : Along P (later ++ e :: earlier)) : Along P earlier := by
  induction later with
  | nil => exact h.2
  | cons _ later ih => exact ih h.2

theorem Along.of_splits {P : Event ι σ κ ε α → List (Event ι σ κ ε α) → Prop}
    {h : List (Event ι σ κ ε α)}
    (hsplit : ∀ later e earlier, h = later ++ e :: earlier → P e earlier) : Along P h := by
  induction h with
  | nil => trivial
  | cons e h ih =>
      refine ⟨hsplit [] e h rfl, ih fun later x earlier heq ↦ ?_⟩
      exact hsplit (e :: later) x earlier (by rw [heq, List.cons_append])

theorem Along.of_mem {P : Event ι σ κ ε α → List (Event ι σ κ ε α) → Prop}
    {h : List (Event ι σ κ ε α)} (hP : Along P h) {e : Event ι σ κ ε α} (he : e ∈ h) :
    ∃ later earlier, h = later ++ e :: earlier ∧ P e earlier := by
  obtain ⟨later, earlier, rfl⟩ := List.append_of_mem he
  exact ⟨later, earlier, rfl, hP.of_append⟩

/-! ## Pairs of events

Histories are newest first, so the later event of a pair is named first. -/

theorem pairwise_of_split {β : Type} {R : β → β → Prop} {l : List β}
    (h : ∀ later e₂ mid e₁ earlier, l = later ++ e₂ :: (mid ++ e₁ :: earlier) → R e₂ e₁) :
    l.Pairwise R := by
  induction l with
  | nil => exact .nil
  | cons e₂ l ih =>
      refine List.pairwise_cons.mpr ⟨fun e₁ he₁ ↦ ?_, ih fun later x mid y earlier hl ↦ ?_⟩
      · obtain ⟨mid, earlier, rfl⟩ := List.append_of_mem he₁
        exact h [] e₂ mid e₁ earlier rfl
      · exact h (e₂ :: later) x mid y earlier (congrArg _ hl)

/-- What else is in a list comes before an element or after it. -/
theorem before_or_after {β : Type} {l later earlier : List β} {x y : β}
    (hl : l = later ++ x :: earlier) (hy : y ∈ l) (hne : y ≠ x) :
    y ∈ earlier ∨ ∃ newer mid, l = newer ++ y :: (mid ++ x :: earlier) := by
  rw [hl] at hy
  rcases List.mem_append.mp hy with hlater | hrest
  · obtain ⟨newer, mid, rfl⟩ := List.append_of_mem hlater
    exact .inr ⟨newer, mid, by simp [hl]⟩
  · rcases List.mem_cons.mp hrest with rfl | hearlier
    · exact absurd rfl hne
    · exact .inl hearlier

/-- Two ways to split a list are the same, or one is further on than the other. -/
theorem split_cases {β : Type} {later later' earlier earlier' : List β} {x y : β}
    (h : later ++ x :: earlier = later' ++ y :: earlier') :
    (later = later' ∧ x = y ∧ earlier = earlier') ∨
      (∃ mid, earlier = mid ++ y :: earlier' ∧ later' = later ++ x :: mid) ∨
        ∃ mid, earlier' = mid ++ x :: earlier ∧ later = later' ++ y :: mid := by
  induction later generalizing later' with
  | nil =>
      cases later' with
      | nil => exact .inl ⟨rfl, List.cons.inj h⟩
      | cons z later' =>
          obtain ⟨rfl, htail⟩ := List.cons.inj h
          exact .inr (.inl ⟨later', htail, rfl⟩)
  | cons z later ih =>
      cases later' with
      | nil =>
          obtain ⟨rfl, htail⟩ := List.cons.inj h
          exact .inr (.inr ⟨later, htail.symm, rfl⟩)
      | cons z' later' =>
          obtain ⟨rfl, htail⟩ := List.cons.inj h
          rcases ih htail with ⟨rfl, hrest⟩ | ⟨mid, hmid, rfl⟩ | ⟨mid, hmid, rfl⟩
          · exact .inl ⟨rfl, hrest⟩
          · exact .inr (.inl ⟨mid, hmid, rfl⟩)
          · exact .inr (.inr ⟨mid, hmid, rfl⟩)

/-- Dropping until `p` keeps everything before an occurrence of `p`. -/
theorem suffix_dropWhile {β : Type} {p : β → Bool} {x : β} (hx : p x = true)
    (newer older : List β) :
    (x :: older) <:+ (newer ++ x :: older).dropWhile fun y ↦ !p y := by
  induction newer with
  | nil => simp [hx]
  | cons y newer ih =>
      cases hy : p y with
      | true => simp [hy]
      | false => simpa [hy] using ih

/-- A list in which `p` occurs splits at its first occurrence. -/
theorem exists_first {β : Type} {p : β → Bool} {l : List β} (h : ∃ x ∈ l, p x = true) :
    ∃ x older, l = (l.takeWhile fun y ↦ !p y) ++ x :: older ∧ p x = true := by
  induction l with
  | nil => simp at h
  | cons y l ih =>
      cases hy : p y with
      | true => exact ⟨y, l, by simp [hy], hy⟩
      | false =>
          obtain ⟨x, older, hl, hx⟩ := ih (by simpa [hy] using h)
          exact ⟨x, older, by simpa [hy] using hl, hx⟩

/-- The first of the elements that are counted. -/
theorem exists_first_of_countP {β : Type} {p : β → Bool} {l : List β} (h : 0 < l.countP p) :
    ∃ newer x older, l = newer ++ x :: older ∧ p x = true ∧ l.countP p = older.countP p + 1 := by
  induction l with
  | nil => simp at h
  | cons y l ih =>
      cases hy : p y with
      | true => exact ⟨[], y, l, rfl, hy, List.countP_cons_of_pos hy⟩
      | false =>
          rw [List.countP_cons_of_neg (by simp [hy])] at h ⊢
          obtain ⟨newer, x, older, rfl, hx, hone⟩ := ih h
          exact ⟨y :: newer, x, older, rfl, hx, hone⟩

theorem sublist_next {β : Type} {e : β} {es rest : List β} (newer : List β) (h : es.Sublist rest) :
    (e :: es).Sublist (newer ++ e :: rest) :=
  (h.cons_cons e).trans (List.sublist_append_right newer _)

/-- `P` holds of at most one event. -/
def Once (P : Event ι σ κ ε α → Prop) (h : List (Event ι σ κ ε α)) : Prop :=
  h.Pairwise fun e₂ e₁ ↦ ¬(P e₁ ∧ P e₂)

theorem Once.eq {P : Event ι σ κ ε α → Prop} {h : List (Event ι σ κ ε α)} (honce : Once P h)
    {e₁ e₂ : Event ι σ κ ε α} (he₁ : e₁ ∈ h) (he₂ : e₂ ∈ h) (h₁ : P e₁) (h₂ : P e₂) : e₁ = e₂ := by
  by_contra hne
  have : Std.Symm fun e₂ e₁ ↦ ¬(P e₁ ∧ P e₂) := ⟨fun _ _ h hboth ↦ h hboth.symm⟩
  exact List.Pairwise.forall honce he₁ he₂ hne ⟨h₂, h₁⟩

theorem Once.mono {P Q : Event ι σ κ ε α → Prop} {h : List (Event ι σ κ ε α)} (honce : Once Q h)
    (himp : ∀ e ∈ h, P e → Q e) : Once P h :=
  List.Pairwise.imp_of_mem (fun he₂ he₁ hnot hboth ↦
    hnot ⟨himp _ he₁ hboth.1, himp _ he₂ hboth.2⟩) honce

/-- What happens once splits a history in one way. -/
theorem Once.split_unique {P : Event ι σ κ ε α → Prop}
    {later later' earlier earlier' : List (Event ι σ κ ε α)} {e e' : Event ι σ κ ε α}
    (honce : Once P (later ++ e :: earlier)) (he : P e) (he' : P e')
    (heq : later ++ e :: earlier = later' ++ e' :: earlier') :
    later = later' ∧ e = e' ∧ earlier = earlier' := by
  rcases split_cases heq with hsame | ⟨mid, hmid, -⟩ | ⟨mid, hmid, -⟩
  · exact hsame
  · have hafter := (List.pairwise_cons.mp (List.pairwise_append.mp honce).2.1).1 e' (by simp [hmid])
    exact absurd ⟨he', he⟩ hafter
  · rw [heq] at honce
    have hafter := (List.pairwise_cons.mp (List.pairwise_append.mp honce).2.1).1 e (by simp [hmid])
    exact absurd ⟨he, he'⟩ hafter

theorem Once.of_append {P : Event ι σ κ ε α → Prop} {later earlier : List (Event ι σ κ ε α)}
    (honce : Once P (later ++ earlier)) : Once P earlier :=
  (List.pairwise_append.mp honce).2.1

def Event.isAnswer : Event ι σ κ ε α → Bool
  | .ran .. => false
  | .answered .. => true

/-- Every thread that was answered has nothing left to do. -/
def Config.AnsweredDone (c : Config Res σ κ ε α) : Prop :=
  ∀ e ∈ c.world.history, e.isAnswer = true → ∃ k, c.pool[e.tid]? = some ⟨k, none⟩

theorem Config.AnsweredDone.setRest {c : Config Res σ κ ε α} (hc : c.AnsweredDone) {i : ℕ} {k : κ}
    {p : Prog Res ε α} (hi : c.pool[i]? = some ⟨k, some p⟩) {p' : Option (Prog Res ε α)}
    {W : World ι σ κ ε α}
    (hW : ∀ e ∈ W.history, e.isAnswer = true → e ∈ c.world.history ∨ e.tid = i ∧ p' = none) :
    (c.setRest i k p' W).AnsweredDone := by
  have hlt := (List.getElem?_eq_some_iff.mp hi).1
  intro e he hanswer
  rcases hW e he hanswer with hmem | ⟨rfl, rfl⟩
  · obtain ⟨k', hk'⟩ := hc e hmem hanswer
    have hne : i ≠ e.tid := by
      rintro rfl
      simp [hi] at hk'
    exact ⟨k', by simpa [Config.setRest, hne] using hk'⟩
  · exact ⟨k, by simp [Config.setRest, hlt]⟩

theorem Reachable.answeredDone {c : Config Res σ κ ε α} (hc : Reachable M handle allowed s c) :
    c.AnsweredDone := by
  induction hc with
  | initial => simp [Config.AnsweredDone, Config.initial]
  | @step c c' a _ _ h ih =>
      rcases Config.perform_cases h with ⟨k, rfl, rfl⟩ | ⟨i, k, q, next, rfl, hi, rfl⟩ |
        ⟨i, k, q, next, r, rfl, hi, hr, rfl⟩ | ⟨i, k, rfl, ⟨b, hi, rfl⟩ | ⟨e, hi, rfl⟩⟩ |
        ⟨i, k, p, rfl, hi, rfl⟩ | ⟨x, rfl, rfl⟩
      · intro e he hanswer
        obtain ⟨k', hk'⟩ := ih e he hanswer
        have hlt := (List.getElem?_eq_some_iff.mp hk').1
        exact ⟨k', by rw [List.getElem?_append_left hlt]; exact hk'⟩
      · refine ih.setRest hi fun e he hanswer ↦ ?_
        rcases List.mem_cons.mp he with rfl | he
        · cases hanswer
        · exact .inl he
      · exact ih.setRest hi fun e he _ ↦ .inl he
      · refine ih.setRest hi fun e he _ ↦ ?_
        rcases List.mem_cons.mp he with rfl | he
        · exact .inr ⟨rfl, rfl⟩
        · exact .inl he
      · refine ih.setRest hi fun e' he' _ ↦ ?_
        rcases List.mem_cons.mp he' with rfl | he'
        · exact .inr ⟨rfl, rfl⟩
        · exact .inl he'
      · exact ih.setRest hi fun e he _ ↦ .inl he
      · exact ih

/-- A request does nothing after it was answered. -/
theorem Reachable.silent_after_answer {c : Config Res σ κ ε α}
    (hc : Reachable M handle allowed s c) :
    c.world.history.Pairwise fun e₂ e₁ ↦ ¬(e₁.isAnswer = true ∧ e₁.tid = e₂.tid) := by
  induction hc with
  | initial => simp [Config.initial]
  | @step c c' a hc _ h ih =>
      have hnew : ∀ (i : ℕ) (k : κ) (p : Prog Res ε α), c.pool[i]? = some ⟨k, some p⟩ →
          ∀ e ∈ c.world.history, ¬(e.isAnswer = true ∧ e.tid = i) := by
        rintro i k p hi e he ⟨hanswer, rfl⟩
        obtain ⟨k', hk'⟩ := hc.answeredDone e he hanswer
        simp [hi] at hk'
      rcases Config.perform_world h with hW | ⟨i, k, q, p, hi, hW⟩ | ⟨i, k, a, p, hi, hW⟩ |
        ⟨x, hW⟩ <;> rw [hW]
      · exact ih
      · exact List.pairwise_cons.mpr ⟨hnew i k p hi, ih⟩
      · exact List.pairwise_cons.mpr ⟨hnew i k p hi, ih⟩
      · exact ih

/-- No request is answered twice. -/
theorem Reachable.answered_once {c : Config Res σ κ ε α} (hc : Reachable M handle allowed s c) :
    c.world.history.Pairwise fun e₂ e₁ ↦
      ¬(e₁.isAnswer = true ∧ e₂.isAnswer = true ∧ e₁.tid = e₂.tid) :=
  hc.silent_after_answer.imp fun hnot hboth ↦ hnot ⟨hboth.1, hboth.2.2⟩

theorem Reachable.answer_eq {c : Config Res σ κ ε α} (hc : Reachable M handle allowed s c)
    {a₁ a₂ : Event ι σ κ ε α} (h₁ : a₁ ∈ c.world.history) (h₂ : a₂ ∈ c.world.history)
    (hanswer₁ : a₁.isAnswer = true) (hanswer₂ : a₂.isAnswer = true) (htid : a₁.tid = a₂.tid) :
    a₁ = a₂ := by
  by_contra hne
  have : Std.Symm fun e₂ e₁ : Event ι σ κ ε α ↦
      ¬(e₁.isAnswer = true ∧ e₂.isAnswer = true ∧ e₁.tid = e₂.tid) :=
    ⟨fun _ _ h hboth ↦ h ⟨hboth.2.1, hboth.1, hboth.2.2.symm⟩⟩
  exact List.Pairwise.forall hc.answered_once h₁ h₂ hne ⟨hanswer₂, hanswer₁, htid.symm⟩

/-- What a thread did, it did before it was answered. -/
theorem Reachable.mem_earlier {c : Config Res σ κ ε α} (hc : Reachable M handle allowed s c)
    {later earlier : List (Event ι σ κ ε α)} {a e : Event ι σ κ ε α}
    (hhist : c.world.history = later ++ a :: earlier) (ha : a.isAnswer = true)
    (he : e ∈ c.world.history) (htid : e.tid = a.tid) : e = a ∨ e ∈ earlier := by
  have hsilent := hc.silent_after_answer
  rw [hhist] at he hsilent
  rcases List.mem_append.mp he with hlater | hrest
  · exact absurd ⟨ha, htid.symm⟩
      ((List.pairwise_append.mp hsilent).2.2 e hlater a List.mem_cons_self)
  · exact List.mem_cons.mp hrest

/-- Two kinds of events, each at most once for every thread and for the same threads, occur
equally often. -/
theorem countP_eq_of_tids {h : List (Event ι σ κ ε α)} {p q : Event ι σ κ ε α → Bool}
    (hp : h.Pairwise fun e₂ e₁ ↦ ¬(p e₁ = true ∧ p e₂ = true ∧ e₁.tid = e₂.tid))
    (hq : h.Pairwise fun e₂ e₁ ↦ ¬(q e₁ = true ∧ q e₂ = true ∧ e₁.tid = e₂.tid))
    (hpq : ∀ i, (∃ e ∈ h, p e = true ∧ e.tid = i) ↔ ∃ e ∈ h, q e = true ∧ e.tid = i) :
    h.countP p = h.countP q := by
  have nodup : ∀ {r : Event ι σ κ ε α → Bool}, (h.Pairwise fun e₂ e₁ ↦
      ¬(r e₁ = true ∧ r e₂ = true ∧ e₁.tid = e₂.tid)) → ((h.filter r).map Event.tid).Nodup := by
    intro r hr
    refine List.pairwise_map.mpr (List.pairwise_filter.mpr (hr.imp fun hnot h₂ h₁ heq ↦ ?_))
    exact hnot ⟨h₁, h₂, heq.symm⟩
  have hperm : ((h.filter p).map Event.tid).Perm ((h.filter q).map Event.tid) := by
    refine (List.perm_ext_iff_of_nodup (nodup hp) (nodup hq)).mpr fun i ↦ ?_
    simpa [and_assoc] using hpq i
  simpa [List.countP_eq_length_filter] using hperm.length_eq

/-! ## Single use -/

/-- Statements that make `live` hold. -/
def Rises (M : Machine Res σ η) (live : σ → Prop) (q : ι) (s : σ) : Prop :=
  ¬live s ∧ live (M.exec q s).2

/-- Statements after which `live` does not hold. -/
def Ends (M : Machine Res σ η) (live : σ → Prop) (q : ι) (s : σ) : Prop :=
  ¬live (M.exec q s).2

section SingleUse

variable (live : σ → Prop) (henv : ∀ x s, live (M.env x s) ↔ live s)
include henv

/-- Once `live` ended, it does not hold until some statement made it hold again. -/
theorem Reachable.not_live_of_ended {c : Config Res σ κ ε α}
    (hc : Reachable M handle allowed s c) {mid earlier : List (Event ι σ κ ε α)}
    {e : Event ι σ κ ε α} (h : c.world.history = mid ++ e :: earlier)
    (hmid : ∀ x ∈ mid, ¬x.Ran (Rises M live)) (he : e.Ran (Ends M live)) :
    ¬live c.world.store := by
  have hinv : ∀ mid e earlier, c.world.history = mid ++ e :: earlier →
      (∀ x ∈ mid, ¬x.Ran (Rises M live)) → e.Ran (Ends M live) → ¬live c.world.store := by
    refine hc.world_induction (P := fun W ↦ ∀ mid e earlier, W.history = mid ++ e :: earlier →
      (∀ x ∈ mid, ¬x.Ran (Rises M live)) → e.Ran (Ends M live) → ¬live W.store) ?_ ?_ ?_ ?_
    · intro mid e earlier h
      simp at h
    · intro i k q W ih mid e earlier h hmid he
      cases mid with
      | nil =>
          obtain ⟨rfl, -⟩ := List.cons.inj h
          exact he
      | cons x mid =>
          obtain ⟨rfl, htail⟩ := List.cons.inj h
          have hdead := ih mid e earlier htail (fun x hx ↦ hmid x (List.mem_cons_of_mem _ hx)) he
          exact fun hlive ↦ hmid _ List.mem_cons_self ⟨hdead, hlive⟩
    · intro i k a W ih mid e earlier h hmid he
      cases mid with
      | nil =>
          obtain ⟨rfl, -⟩ := List.cons.inj h
          exact he.elim
      | cons x mid =>
          exact ih mid e earlier (List.cons.inj h).2
            (fun x hx ↦ hmid x (List.mem_cons_of_mem _ hx)) he
    · intro x W ih mid e earlier h hmid he
      rw [World.moved_store, henv]
      exact ih mid e earlier h hmid he
  exact hinv mid e earlier h hmid he

/-- What holds now and did not hold at the start began at some event and held ever since. -/
theorem Reachable.rises_of_live {c : Config Res σ κ ε α}
    (hc : Reachable M handle allowed s c) (hs : ¬live s) (hlive : live c.world.store) :
    ∃ mid e earlier, c.world.history = mid ++ e :: earlier ∧ e.Ran (Rises M live) ∧
      ∀ x ∈ mid, live x.store ∧ ¬x.Ran (Ends M live) := by
  refine hc.world_induction (P := fun W ↦ live W.store → ∃ mid e earlier,
    W.history = mid ++ e :: earlier ∧ e.Ran (Rises M live) ∧
      ∀ x ∈ mid, live x.store ∧ ¬x.Ran (Ends M live)) (fun h ↦ absurd h hs) ?_ ?_ ?_ hlive
  · intro i k q W ih h
    by_cases hbefore : live W.store
    · obtain ⟨mid, e, earlier, hW, he, hmid⟩ := ih hbefore
      refine ⟨_ :: mid, e, earlier, congrArg _ hW, he, fun x hx ↦ ?_⟩
      rcases List.mem_cons.mp hx with rfl | hx
      · exact ⟨hbefore, fun hend ↦ hend h⟩
      · exact hmid x hx
    · exact ⟨[], _, W.history, rfl, ⟨hbefore, h⟩, by simp⟩
  · intro i k a W ih h
    obtain ⟨mid, e, earlier, hW, he, hmid⟩ := ih h
    refine ⟨_ :: mid, e, earlier, congrArg _ hW, he, fun x hx ↦ ?_⟩
    rcases List.mem_cons.mp hx with rfl | hx
    · exact ⟨h, id⟩
    · exact hmid x hx
  · intro x W ih h
    exact ih ((henv x W.store).mp h)

/-- What held at the start holds now, unless some event ended it. -/
theorem Reachable.live_of_start {c : Config Res σ κ ε α}
    (hc : Reachable M handle allowed s c) (hs : live s)
    (hkept : ∀ x ∈ c.world.history, live x.store → ¬x.Ran (Ends M live)) :
    live c.world.store := by
  refine hc.world_induction (P := fun W ↦
    (∀ x ∈ W.history, live x.store → ¬x.Ran (Ends M live)) → live W.store)
      (fun _ ↦ hs) ?_ ?_ ?_ hkept
  · intro i k q W ih hkept
    have hbefore : live W.store := ih fun x hx ↦ hkept x (List.mem_cons_of_mem _ hx)
    exact not_not.mp (hkept _ List.mem_cons_self hbefore)
  · exact fun i k a W ih hkept ↦ ih fun x hx ↦ hkept x (List.mem_cons_of_mem _ hx)
  · exact fun x W ih hkept ↦ (henv x W.store).mpr (ih hkept)

/-- What held when `e` happened holds now, unless `e` or some later event ended it. -/
theorem Reachable.live_of_kept {c : Config Res σ κ ε α}
    (hc : Reachable M handle allowed s c) {later earlier : List (Event ι σ κ ε α)}
    {e : Event ι σ κ ε α} (h : c.world.history = later ++ e :: earlier) (he : live e.store)
    (hkept : ∀ x ∈ e :: later, live x.store → ¬x.Ran (Ends M live)) : live c.world.store := by
  refine hc.world_induction (P := fun W ↦ ∀ later, W.history = later ++ e :: earlier →
    (∀ x ∈ e :: later, live x.store → ¬x.Ran (Ends M live)) → live W.store) ?_ ?_ ?_
      ?_ later h hkept
  · intro later h
    simp at h
  · intro i k q W ih later h hkept
    cases later with
    | nil =>
        obtain ⟨rfl, -⟩ := List.cons.inj h
        exact not_not.mp (hkept _ List.mem_cons_self he)
    | cons x later =>
        obtain ⟨rfl, htail⟩ := List.cons.inj h
        have hbefore : live W.store := ih later htail fun y hy ↦ hkept y
          (List.mem_cons.mpr ((List.mem_cons.mp hy).imp_right (List.mem_cons_of_mem _)))
        exact not_not.mp (hkept (.ran i k q W.store) (by simp) hbefore)
  · intro i k a W ih later h hkept
    cases later with
    | nil =>
        obtain ⟨rfl, -⟩ := List.cons.inj h
        exact he
    | cons x later =>
        exact ih later (List.cons.inj h).2 fun y hy ↦ hkept y
          (List.mem_cons.mpr ((List.mem_cons.mp hy).imp_right (List.mem_cons_of_mem _)))
  · intro x W ih later h hkept
    exact (henv x W.store).mpr (ih later h hkept)

/-- What no statement ends holds ever after. -/
theorem Reachable.live_of_lasting {c : Config Res σ κ ε α}
    (hc : Reachable M handle allowed s c) (hlasting : ∀ q s, live s → live (M.exec q s).2)
    {later earlier : List (Event ι σ κ ε α)} {e : Event ι σ κ ε α}
    (h : c.world.history = later ++ e :: earlier) (he : live e.store) : live c.world.store := by
  refine hc.live_of_kept live henv h he fun x _ hlive hend ↦ ?_
  cases x with
  | ran i k q b => exact hend (hlasting q b hlive)
  | answered => exact hend

/-- What some event made true, and no later event ended, holds now. -/
theorem Reachable.live_of_begun {c : Config Res σ κ ε α}
    (hc : Reachable M handle allowed s c) {later earlier : List (Event ι σ κ ε α)}
    {e : Event ι σ κ ε α} (h : c.world.history = later ++ e :: earlier)
    (he : e.Ran fun q s ↦ live (M.exec q s).2)
    (hkept : ∀ x ∈ later, live x.store → ¬x.Ran (Ends M live)) : live c.world.store := by
  by_contra hdead
  refine hc.not_live_of_ended (fun s ↦ ¬live s) (fun x s ↦ not_congr (henv x s)) h
    (fun x hx hrise ↦ ?_) ?_ hdead
  · cases x with
    | ran i k q b => exact hkept _ hx (not_not.mp hrise.1) hrise.2
    | answered => exact hrise
  · cases e with
    | ran i k q b => exact not_not.mpr he
    | answered => exact he

/-- What some event made true, and no statement ends, holds ever after. -/
theorem Reachable.live_of_made {c : Config Res σ κ ε α}
    (hc : Reachable M handle allowed s c) (hlasting : ∀ q s, live s → live (M.exec q s).2)
    {later earlier : List (Event ι σ κ ε α)} {e : Event ι σ κ ε α}
    (h : c.world.history = later ++ e :: earlier) (he : e.Ran fun q s ↦ live (M.exec q s).2) :
    live c.world.store := by
  refine hc.live_of_begun live henv h he fun x _ hlive hend ↦ ?_
  cases x with
  | ran i k q b => exact hend (hlasting q b hlive)
  | answered => exact hend

/-- What ended and is found to hold later began again in between. -/
theorem Reachable.rises_between {c : Config Res σ κ ε α} (hc : Reachable M handle allowed s c)
    {later mid earlier : List (Event ι σ κ ε α)} {e₁ e₂ : Event ι σ κ ε α}
    (hhist : c.world.history = later ++ e₂ :: (mid ++ e₁ :: earlier)) (he₁ : e₁.Ran (Ends M live))
    (hlive₂ : live e₂.store) : ∃ r ∈ mid, r.Ran (Rises M live) := by
  obtain ⟨c₂, hc₂, hworld₂⟩ := hc.past hhist
  by_contra hnone
  push Not at hnone
  apply hc₂.not_live_of_ended live henv (by rw [hworld₂]) hnone he₁
  simpa [hworld₂] using hlive₂

/-- The law of single use: what became available once is not found available after it ended. -/
theorem Reachable.spent_once {c : Config Res σ κ ε α} (hc : Reachable M handle allowed s c)
    (hs : ¬live s) (honce : Once (fun e ↦ e.Ran (Rises M live)) c.world.history) :
    c.world.history.Pairwise fun e₂ e₁ ↦
      ¬(live e₂.store ∧ live e₁.store ∧ e₁.Ran (Ends M live)) := by
  refine pairwise_of_split fun later e₂ mid e₁ earlier hhist ↦ ?_
  rintro ⟨hlive₂, hlive₁, hend⟩
  have hsplit : c.world.history = (later ++ e₂ :: mid) ++ e₁ :: earlier := by simpa using hhist
  obtain ⟨c₁, hc₁, hworld₁⟩ := hc.past hsplit
  obtain ⟨_, r₁, _, hhist₁, hr₁, -⟩ :=
    hc₁.rises_of_live live henv hs (by simpa [hworld₁] using hlive₁)
  obtain ⟨r₂, hr₂mem, hr₂⟩ := hc.rises_between live henv hhist hend hlive₂
  have hr₁mem : r₁ ∈ earlier := by
    have : earlier = _ := (congrArg World.history hworld₁).symm.trans hhist₁
    simp [this]
  rw [hhist] at honce
  have hpair :=
    (List.pairwise_append.mp (List.pairwise_cons.mp (List.pairwise_append.mp honce).2.1).2).2.2
  exact hpair r₂ hr₂mem r₁ (List.mem_cons_of_mem _ hr₁mem) ⟨hr₁, hr₂⟩

/-- What begins at most once, and not at all if it held at the start, does not hold again once it
held and ended. -/
theorem Reachable.gone_of_ended {c : Config Res σ κ ε α} (hc : Reachable M handle allowed s c)
    (hstart : live s → ∀ x ∈ c.world.history, ¬x.Ran (Rises M live))
    (honce : Once (fun e ↦ e.Ran (Rises M live)) c.world.history)
    {later earlier : List (Event ι σ κ ε α)} {e : Event ι σ κ ε α}
    (hhist : c.world.history = later ++ e :: earlier) (hlive : ∃ x ∈ e :: earlier, live x.store)
    (hend : e.Ran (Ends M live)) : ¬live c.world.store := by
  refine hc.not_live_of_ended live henv hhist (fun x hx hrise ↦ ?_) hend
  have hmem : x ∈ c.world.history := hhist ▸ List.mem_append_left _ hx
  obtain ⟨y, hy, hlive⟩ := hlive
  obtain ⟨newer, older, hsplit⟩ := List.append_of_mem hy
  have hhist' : c.world.history = (later ++ newer) ++ y :: older := by
    rw [hhist, hsplit, List.append_assoc]
  obtain ⟨d, hd, hworld⟩ := hc.past hhist'
  by_cases hs : live s
  · exact hstart hs x hmem hrise
  · obtain ⟨mid, r, oldest, hold, hr, -⟩ :=
      hd.rises_of_live live henv hs (by simpa [hworld] using hlive)
    rw [hworld] at hold
    rw [hhist] at honce
    have hr' : r ∈ e :: earlier := by
      rw [hsplit]
      exact List.mem_append_right _ (List.mem_cons_of_mem _ (by simp [show older = _ from hold]))
    exact (List.pairwise_append.mp honce).2.2 x hx r hr' ⟨hr, hrise⟩

theorem Reachable.ends_once {c : Config Res σ κ ε α} (hc : Reachable M handle allowed s c)
    (hs : ¬live s) (honce : Once (fun e ↦ e.Ran (Rises M live)) c.world.history) :
    Once (fun e ↦ live e.store ∧ e.Ran (Ends M live)) c.world.history :=
  (hc.spent_once live henv hs honce).imp fun hnot hboth ↦ hnot ⟨hboth.2.1, hboth.1⟩

end SingleUse

end Interleave
