import ApiStarter.Interleave.Runs

/-!
# Undisturbed runs

A handler that runs with nothing in between is a function of the store.
`Settles` walks through one such run, and `Agrees` through two runs of the same
handler from stores that may differ.
-/

namespace Interleave

variable {ι σ η ε ε' β γ : Type} {Res : ι → Type} (M : Machine Res σ η)

theorem Prog.alone_bind (p : Prog Res ε β) (f : β → Prog Res ε γ) (s : σ) :
    (p >>= f).alone M s = match p.alone M s with
      | (.ok b, s') => (f b).alone M s'
      | (.error e, s') => (.error e, s') := by
  induction p generalizing s with
  | ret b => rfl
  | fail e => rfl
  | stmt q next ih => exact ih _ _

theorem Prog.alone_bindBoth (p : Prog Res ε β) (f : Except ε β → Prog Res ε' γ) (s : σ) :
    (p.bindBoth f).alone M s = (f (p.alone M s).1).alone M (p.alone M s).2 := by
  induction p generalizing s with
  | ret b => rfl
  | fail e => rfl
  | stmt q next ih => exact ih _ _

/-! ## One run -/

/-- Alone from `s`, `p` returns into `Q` or fails into `E`. -/
def Settles : Prog Res ε β → (β → σ → Prop) → (ε → σ → Prop) → σ → Prop
  | .ret b, Q, _, s => Q b s
  | .fail e, _, E, s => E e s
  | .stmt q next, Q, E, s => Settles (next (M.exec q s).1) Q E (M.exec q s).2

section Settles

variable {M} {Q : β → σ → Prop} {E : ε → σ → Prop} {s : σ}

@[simp] theorem settles_ret (b : β) : Settles M (.ret b : Prog Res ε β) Q E s ↔ Q b s := Iff.rfl

@[simp] theorem settles_fail (e : ε) : Settles M (.fail e : Prog Res ε β) Q E s ↔ E e s := Iff.rfl

theorem settles_stmt (q : ι) (next : Res q → Prog Res ε β) : Settles M (.stmt q next) Q E s ↔
    Settles M (next (M.exec q s).1) Q E (M.exec q s).2 := Iff.rfl

theorem settles_ask (q : ι) {Q : Res q → σ → Prop} :
    Settles M (Prog.ask q : Prog Res ε (Res q)) Q E s ↔ Q (M.exec q s).1 (M.exec q s).2 := Iff.rfl

theorem settles_bind {p : Prog Res ε β} {f : β → Prog Res ε γ} {Q : γ → σ → Prop} :
    Settles M (p >>= f) Q E s ↔ Settles M p (fun b ↦ Settles M (f b) Q E) E s := by
  induction p generalizing s with
  | ret b => exact Iff.rfl
  | fail e => exact Iff.rfl
  | stmt q next ih => simp only [Prog.stmt_bind, settles_stmt, ih]

theorem settles_mapErr {p : Prog Res ε β} {f : ε → ε'} {E : ε' → σ → Prop} :
    Settles M (p.mapErr f) Q E s ↔ Settles M p Q (fun e ↦ E (f e)) s := by
  induction p generalizing s with
  | ret b => exact Iff.rfl
  | fail e => exact Iff.rfl
  | stmt q next ih => exact ih _

@[simp] theorem settles_okOr (e : ε) (o : Option β) :
    Settles M (Prog.okOr e o : Prog Res ε β) Q E s ↔
      (∀ b, o = some b → Q b s) ∧ (o = none → E e s) := by
  cases o <;> simp

@[simp] theorem settles_ensure (c : Prop) [Decidable c] (e : ε) {Q : Unit → σ → Prop} :
    Settles M (Prog.ensure c e : Prog Res ε Unit) Q E s ↔ (c → Q () s) ∧ (¬c → E e s) := by
  by_cases h : c <;> simp [Prog.ensure, h]

theorem Settles.mono {p : Prog Res ε β} {Q' : β → σ → Prop} {E' : ε → σ → Prop}
    (h : Settles M p Q E s) (hQ : ∀ b s, Q b s → Q' b s) (hE : ∀ e s, E e s → E' e s) :
    Settles M p Q' E' s := by
  induction p generalizing s with
  | ret b => exact hQ b s h
  | fail e => exact hE e s h
  | stmt q next ih => exact ih _ h

theorem settles_of_returns {p : Prog Res ε β} {P : β → Prop} (hp : p.Returns P)
    (hE : ∀ e s, E e s) : Settles M p (fun b _ ↦ P b) E s := by
  induction p generalizing s with
  | ret b => exact hp
  | fail e => exact hE e s
  | stmt q next ih => exact ih _ (hp _)

theorem Settles.alone {p : Prog Res ε β} (h : Settles M p Q E s) :
    (∀ b s', p.alone M s = (.ok b, s') → Q b s') ∧
      ∀ e s', p.alone M s = (.error e, s') → E e s' := by
  induction p generalizing s with
  | ret b =>
      refine ⟨?_, nofun⟩
      rintro _ _ ⟨⟩
      exact h
  | fail e =>
      refine ⟨nofun, ?_⟩
      rintro _ _ ⟨⟩
      exact h
  | stmt q next ih => exact ih _ h

end Settles

/-! ## One run that is cut off -/

/-- What `p` alone comes to in its first `n` statements: an outcome, or none if there are more. -/
def Prog.aloneFor : Prog Res ε β → ℕ → σ → Option (Except ε β) × σ
  | .ret b, _, s => (some (.ok b), s)
  | .fail e, _, s => (some (.error e), s)
  | .stmt _ _, 0, s => (none, s)
  | .stmt q next, n + 1, s => (next (M.exec q s).1).aloneFor n (M.exec q s).2

/-- In its first `n` statements `p` returns into `Q`, with some of them left, or fails into `E`,
or it is cut off in `C`. -/
def SettlesFor : Prog Res ε β → ℕ → (β → ℕ → σ → Prop) → (ε → σ → Prop) → (σ → Prop) → σ → Prop
  | .ret b, n, Q, _, _, s => Q b n s
  | .fail e, _, _, E, _, s => E e s
  | .stmt _ _, 0, _, _, C, s => C s
  | .stmt q next, n + 1, Q, E, C, s => SettlesFor (next (M.exec q s).1) n Q E C (M.exec q s).2

section SettlesFor

variable {M} {Q : β → ℕ → σ → Prop} {E : ε → σ → Prop} {C : σ → Prop} {n : ℕ} {s : σ}

@[simp] theorem settlesFor_ret (b : β) :
    SettlesFor M (.ret b : Prog Res ε β) n Q E C s ↔ Q b n s := by
  simp [SettlesFor]

@[simp] theorem settlesFor_fail (e : ε) :
    SettlesFor M (.fail e : Prog Res ε β) n Q E C s ↔ E e s := by
  simp [SettlesFor]

theorem settlesFor_ask_zero (q : ι) {Q : Res q → ℕ → σ → Prop} :
    SettlesFor M (Prog.ask q : Prog Res ε (Res q)) 0 Q E C s ↔ C s := Iff.rfl

theorem settlesFor_ask_succ (q : ι) {Q : Res q → ℕ → σ → Prop} :
    SettlesFor M (Prog.ask q : Prog Res ε (Res q)) (n + 1) Q E C s ↔
      Q (M.exec q s).1 n (M.exec q s).2 := by
  simp [Prog.ask, SettlesFor]

theorem settlesFor_bind {p : Prog Res ε β} {f : β → Prog Res ε γ} {Q : γ → ℕ → σ → Prop} :
    SettlesFor M (p >>= f) n Q E C s ↔
      SettlesFor M p n (fun b m ↦ SettlesFor M (f b) m Q E C) E C s := by
  induction p generalizing n s with
  | ret b => simp
  | fail e => simp
  | stmt q next ih =>
      cases n with
      | zero => exact Iff.rfl
      | succ n => exact ih _

@[simp] theorem settlesFor_okOr (e : ε) (o : Option β) :
    SettlesFor M (Prog.okOr e o : Prog Res ε β) n Q E C s ↔
      (∀ b, o = some b → Q b n s) ∧ (o = none → E e s) := by
  cases o <;> simp

@[simp] theorem settlesFor_ensure (c : Prop) [Decidable c] (e : ε) {Q : Unit → ℕ → σ → Prop} :
    SettlesFor M (Prog.ensure c e : Prog Res ε Unit) n Q E C s ↔
      (c → Q () n s) ∧ (¬c → E e s) := by
  by_cases h : c <;> simp [Prog.ensure, h]

theorem SettlesFor.mono {p : Prog Res ε β} {Q' : β → ℕ → σ → Prop} {E' : ε → σ → Prop}
    {C' : σ → Prop} (h : SettlesFor M p n Q E C s) (hQ : ∀ b m s, Q b m s → Q' b m s)
    (hE : ∀ e s, E e s → E' e s) (hC : ∀ s, C s → C' s) : SettlesFor M p n Q' E' C' s := by
  induction p generalizing n s with
  | ret b => exact (settlesFor_ret b).mpr (hQ b n s ((settlesFor_ret b).mp h))
  | fail e => exact (settlesFor_fail e).mpr (hE e s ((settlesFor_fail e).mp h))
  | stmt q next ih =>
      cases n with
      | zero => exact hC s h
      | succ n => exact ih _ h

theorem SettlesFor.aloneFor {p : Prog Res ε β} (h : SettlesFor M p n Q E C s) :
    (∀ b s', p.aloneFor M n s = (some (.ok b), s') → ∃ m, Q b m s') ∧
      (∀ e s', p.aloneFor M n s = (some (.error e), s') → E e s') ∧
        ∀ s', p.aloneFor M n s = (none, s') → C s' := by
  induction p generalizing n s with
  | ret b => simpa [Prog.aloneFor] using ⟨n, (settlesFor_ret b).mp h⟩
  | fail e => simpa [Prog.aloneFor] using h
  | stmt q next ih =>
      cases n with
      | zero => simpa [Prog.aloneFor] using (show C s from h)
      | succ n => exact ih _ h

end SettlesFor

/-! ## One run that may break off -/

/-- What `p` alone comes to, or none if it breaks off before a statement. -/
def Prog.aloneUnless (breaks : ι → σ → Bool) : Prog Res ε β → σ → Option (Except ε β) × σ
  | .ret b, s => (some (.ok b), s)
  | .fail e, s => (some (.error e), s)
  | .stmt q next, s =>
      if breaks q s then (none, s) else (next (M.exec q s).1).aloneUnless breaks (M.exec q s).2

/-- Alone from `s`, `p` does not break off, and returns into `Q` or fails into `E`. -/
def SettlesUnless (breaks : ι → σ → Bool) :
    Prog Res ε β → (β → σ → Prop) → (ε → σ → Prop) → σ → Prop
  | .ret b, Q, _, s => Q b s
  | .fail e, _, E, s => E e s
  | .stmt q next, Q, E, s =>
      breaks q s = false ∧ SettlesUnless breaks (next (M.exec q s).1) Q E (M.exec q s).2

section SettlesUnless

variable {M} {breaks : ι → σ → Bool} {Q : β → σ → Prop} {E : ε → σ → Prop} {s : σ}

@[simp] theorem settlesUnless_ret (b : β) :
    SettlesUnless M breaks (.ret b : Prog Res ε β) Q E s ↔ Q b s := Iff.rfl

@[simp] theorem settlesUnless_fail (e : ε) :
    SettlesUnless M breaks (.fail e : Prog Res ε β) Q E s ↔ E e s := Iff.rfl

theorem settlesUnless_ask (q : ι) {Q : Res q → σ → Prop} :
    SettlesUnless M breaks (Prog.ask q : Prog Res ε (Res q)) Q E s ↔
      breaks q s = false ∧ Q (M.exec q s).1 (M.exec q s).2 := Iff.rfl

theorem settlesUnless_bind {p : Prog Res ε β} {f : β → Prog Res ε γ} {Q : γ → σ → Prop} :
    SettlesUnless M breaks (p >>= f) Q E s ↔
      SettlesUnless M breaks p (fun b ↦ SettlesUnless M breaks (f b) Q E) E s := by
  induction p generalizing s with
  | ret b => exact Iff.rfl
  | fail e => exact Iff.rfl
  | stmt q next ih => exact and_congr_right fun _ ↦ ih _

@[simp] theorem settlesUnless_okOr (e : ε) (o : Option β) :
    SettlesUnless M breaks (Prog.okOr e o : Prog Res ε β) Q E s ↔
      (∀ b, o = some b → Q b s) ∧ (o = none → E e s) := by
  cases o <;> simp

@[simp] theorem settlesUnless_ensure (c : Prop) [Decidable c] (e : ε) {Q : Unit → σ → Prop} :
    SettlesUnless M breaks (Prog.ensure c e : Prog Res ε Unit) Q E s ↔
      (c → Q () s) ∧ (¬c → E e s) := by
  by_cases h : c <;> simp [Prog.ensure, h]

theorem SettlesUnless.mono {p : Prog Res ε β} {Q' : β → σ → Prop} {E' : ε → σ → Prop}
    (h : SettlesUnless M breaks p Q E s) (hQ : ∀ b s, Q b s → Q' b s)
    (hE : ∀ e s, E e s → E' e s) : SettlesUnless M breaks p Q' E' s := by
  induction p generalizing s with
  | ret b => exact hQ b s h
  | fail e => exact hE e s h
  | stmt q next ih => exact ⟨h.1, ih _ h.2⟩

/-- The run ends in an outcome. -/
theorem SettlesUnless.aloneUnless {p : Prog Res ε β} (h : SettlesUnless M breaks p Q E s) :
    (∃ b s', p.aloneUnless M breaks s = (some (.ok b), s') ∧ Q b s') ∨
      ∃ e s', p.aloneUnless M breaks s = (some (.error e), s') ∧ E e s' := by
  induction p generalizing s with
  | ret b => exact .inl ⟨b, s, rfl, h⟩
  | fail e => exact .inr ⟨e, s, rfl, h⟩
  | stmt q next ih =>
      simp only [Prog.aloneUnless, h.1, Bool.false_eq_true, if_false]
      exact ih _ h.2

end SettlesUnless

/-! ## One request after the other -/

variable {κ : Type}

/-- The machine with a move of the environment before each statement. -/
def Machine.paced (M : Machine Res σ η) (pace : ℕ → η) : Machine Res (σ × ℕ) η where
  exec q t := ((M.exec q (M.env (pace t.2) t.1)).1, (M.exec q (M.env (pace t.2) t.1)).2, t.2 + 1)
  fault := M.fault
  env x t := (M.env x t.1, t.2)

/-- The paced machine when the statements with these numbers fail, as far as they can. -/
def Machine.faulty (M : Machine Res σ η) (pace : ℕ → η) (down : ℕ → Bool) :
    Machine Res (σ × ℕ) η where
  exec q t :=
    match if down t.2 then M.fault q else none with
    | some r => (r, M.env (pace t.2) t.1, t.2 + 1)
    | none => (M.paced pace).exec q t
  fault := M.fault
  env x t := (M.env x t.1, t.2)

theorem Machine.faulty_exec {pace : ℕ → η} {down : ℕ → Bool} {q : ι} (hq : M.fault q = none)
    (t : σ × ℕ) : (M.faulty pace down).exec q t = (M.paced pace).exec q t := by
  simp [Machine.faulty, hq]

/-- The answers to requests that are served one after the other. -/
def serve (handle : κ → Prog Res ε β) : List κ → σ → List (Except ε β)
  | [], _ => []
  | k :: ks, s => ((handle k).alone M s).1 :: serve handle ks ((handle k).alone M s).2

/-- The answers to requests that are served one after the other, none to one that breaks off. -/
def serveUnless (breaks : ι → σ → Bool) (handle : κ → Prog Res ε β) :
    List κ → σ → List (Option (Except ε β))
  | [], _ => []
  | k :: ks, s => ((handle k).aloneUnless M breaks s).1 ::
      serveUnless breaks handle ks ((handle k).aloneUnless M breaks s).2

/-- The store after requests that are served one after the other. -/
def served (handle : κ → Prog Res ε β) : List κ → σ → σ
  | [], s => s
  | k :: ks, s => served handle ks ((handle k).alone M s).2

/-! ## Two runs -/

/-- Alone from `s` and from `s'`, the programs end the same way, and leave the stores in `Q` when
they return and in `E` when they fail. -/
structure Accords (p p' : Prog Res ε β) (Q : β → σ → σ → Prop) (E : ε → σ → σ → Prop)
    (s s' : σ) : Prop where
  same : (p.alone M s).1 = (p'.alone M s').1
  ok : ∀ b, (p.alone M s).1 = .ok b → Q b (p.alone M s).2 (p'.alone M s').2
  error : ∀ e, (p.alone M s).1 = .error e → E e (p.alone M s).2 (p'.alone M s').2

section Accords

variable {M} {p p' : Prog Res ε β} {Q : β → σ → σ → Prop} {E : ε → σ → σ → Prop} {s s' : σ}

theorem accords_ret {b : β} (h : Q b s s') :
    Accords M (.ret b : Prog Res ε β) (.ret b) Q E s s' where
  same := rfl
  ok b' hb' := by
    obtain rfl : b = b' := Except.ok.inj hb'
    exact h
  error := nofun

theorem accords_ret_of_eq {b b' : β} (hsame : b = b') (h : Q b s s') :
    Accords M (.ret b : Prog Res ε β) (.ret b') Q E s s' := by
  subst hsame
  exact accords_ret h

theorem accords_fail {e : ε} (h : E e s s') :
    Accords M (.fail e : Prog Res ε β) (.fail e) Q E s s' where
  same := rfl
  ok := nofun
  error e' he' := by
    obtain rfl : e = e' := Except.error.inj he'
    exact h

theorem accords_stmt {q q' : ι} {next : Res q → Prog Res ε β} {next' : Res q' → Prog Res ε β}
    (h : Accords M (next (M.exec q s).1) (next' (M.exec q' s').1) Q E (M.exec q s).2
      (M.exec q' s').2) : Accords M (.stmt q next) (.stmt q' next') Q E s s' :=
  ⟨h.same, h.ok, h.error⟩

/-- One statement, which fails in both runs or in neither. -/
theorem accords_faulty {pace : ℕ → η} {down : ℕ → Bool} {t t' : σ × ℕ} {q : ι}
    {next next' : Res q → Prog Res ε β} {Q : β → σ × ℕ → σ × ℕ → Prop}
    {E : ε → σ × ℕ → σ × ℕ → Prop} (hcount : t.2 = t'.2)
    (hexec : Accords (M.faulty pace down) (next (M.exec q (M.env (pace t.2) t.1)).1)
      (next' (M.exec q (M.env (pace t.2) t'.1)).1) Q E
        ((M.exec q (M.env (pace t.2) t.1)).2, t.2 + 1)
        ((M.exec q (M.env (pace t.2) t'.1)).2, t.2 + 1))
    (hfault : ∀ r ∈ M.fault q, Accords (M.faulty pace down) (next r) (next' r) Q E
      (M.env (pace t.2) t.1, t.2 + 1) (M.env (pace t.2) t'.1, t.2 + 1)) :
    Accords (M.faulty pace down) (.stmt q next) (.stmt q next') Q E t t' := by
  obtain ⟨s, n⟩ := t
  obtain ⟨s', n'⟩ := t'
  obtain rfl : n = n' := hcount
  apply accords_stmt
  simp only [Machine.faulty]
  cases hdown : (if down n then M.fault q else none) with
  | none => exact hexec
  | some r =>
      have hr : M.fault q = some r := by
        split at hdown
        · exact hdown
        · cases hdown
      exact hfault r hr

theorem accords_bindBoth {f f' : Except ε β → Prog Res ε' γ} {Q : γ → σ → σ → Prop}
    {E : ε' → σ → σ → Prop}
    (h : Accords M p p' (fun b ↦ Accords M (f (.ok b)) (f' (.ok b)) Q E)
      (fun e ↦ Accords M (f (.error e)) (f' (.error e)) Q E) s s') :
    Accords M (p.bindBoth f) (p'.bindBoth f') Q E s s' := by
  obtain ⟨hsame, hok, herror⟩ := h
  have hrest : Accords M (f (p.alone M s).1) (f' (p'.alone M s').1) Q E (p.alone M s).2
      (p'.alone M s').2 := by
    rw [← hsame]
    cases hp : (p.alone M s).1 with
    | ok b => exact hok b hp
    | error e => exact herror e hp
  obtain ⟨hsame', hok', herror'⟩ := hrest
  constructor
  · rw [Prog.alone_bindBoth, Prog.alone_bindBoth, hsame']
  · rw [Prog.alone_bindBoth, Prog.alone_bindBoth]
    exact hok'
  · rw [Prog.alone_bindBoth, Prog.alone_bindBoth]
    exact herror'

/-- What follows a result in a bind. -/
def Prog.goOn (f : β → Prog Res ε γ) : Except ε β → Prog Res ε γ
  | .ok b => f b
  | .error e => .fail e

theorem Prog.bind_eq_bindBoth (p : Prog Res ε β) (f : β → Prog Res ε γ) :
    (p >>= f) = p.bindBoth (goOn f) := by
  induction p with
  | ret b => rfl
  | fail e => rfl
  | stmt q next ih =>
      rw [stmt_bind]
      exact congrArg (stmt q) (funext ih)

theorem accords_bind {f f' : β → Prog Res ε γ} {Q : γ → σ → σ → Prop}
    (h : Accords M p p' (fun b ↦ Accords M (f b) (f' b) Q E) E s s') :
    Accords M (p >>= f) (p' >>= f') Q E s s' := by
  rw [Prog.bind_eq_bindBoth, Prog.bind_eq_bindBoth]
  exact accords_bindBoth ⟨h.same, h.ok, fun e he ↦ accords_fail (h.error e he)⟩

theorem accords_okOr {e : ε} {o : Option β} (h : ∀ b, o = some b → Q b s s')
    (he : o = none → E e s s') : Accords M (Prog.okOr e o) (Prog.okOr e o) Q E s s' := by
  cases o with
  | none => exact accords_fail (he rfl)
  | some b => exact accords_ret (h b rfl)

theorem accords_ensure {c : Prop} [Decidable c] {e : ε} {Q : Unit → σ → σ → Prop}
    (h : c → Q () s s') (he : ¬c → E e s s') :
    Accords M (Prog.ensure c e) (Prog.ensure c e) Q E s s' := by
  unfold Prog.ensure
  split
  next hc => exact accords_ret (h hc)
  next hc => exact accords_fail (he hc)

theorem Accords.mono {Q' : β → σ → σ → Prop} {E' : ε → σ → σ → Prop}
    (h : Accords M p p' Q E s s') (hQ : ∀ b t t', Q b t t' → Q' b t t')
    (hE : ∀ e t t', E e t t' → E' e t t') : Accords M p p' Q' E' s s' :=
  ⟨h.same, fun b hb ↦ hQ b _ _ (h.ok b hb), fun e he ↦ hE e _ _ (h.error e he)⟩

/-- Requests that keep the stores related are answered alike, one after the other. -/
theorem serve_accords {handle : κ → Prog Res ε β} {R : σ → σ → Prop} {ks : List κ}
    (hk : ∀ k ∈ ks, ∀ t t', R t t' →
      Accords M (handle k) (handle k) (fun _ ↦ R) (fun _ ↦ R) t t') (h : R s s') :
    serve M handle ks s = serve M handle ks s' ∧
      R (served M handle ks s) (served M handle ks s') := by
  induction ks generalizing s s' with
  | nil => exact ⟨rfl, h⟩
  | cons k ks ih =>
      obtain ⟨hsame, hok, herror⟩ := hk k List.mem_cons_self s s' h
      have hnext : R ((handle k).alone M s).2 ((handle k).alone M s').2 := by
        cases hrun : ((handle k).alone M s).1 with
        | ok b => exact hok b hrun
        | error e => exact herror e hrun
      obtain ⟨hserve, hserved⟩ := ih (fun k' hk' ↦ hk k' (List.mem_cons_of_mem k hk')) hnext
      exact ⟨by rw [serve, serve, hsame, hserve], hserved⟩

end Accords

/-- Alone from `s` and from `s'`, `p` answers the same, and what it returns leaves the stores
in `Q`. -/
def Agrees (p : Prog Res ε β) (Q : β → σ → σ → Prop) (s s' : σ) : Prop :=
  (p.alone M s).1 = (p.alone M s').1 ∧
    ∀ b, (p.alone M s).1 = .ok b → Q b (p.alone M s).2 (p.alone M s').2

section Agrees

variable {M} {Q : β → σ → σ → Prop} {s s' : σ}

theorem agrees_iff {p : Prog Res ε β} :
    Agrees M p Q s s' ↔ Accords M p p Q (fun _ _ _ ↦ True) s s' :=
  ⟨fun h ↦ ⟨h.1, h.2, fun _ _ ↦ trivial⟩, fun h ↦ ⟨h.same, h.ok⟩⟩

theorem agrees_ret {b : β} (h : Q b s s') : Agrees M (.ret b : Prog Res ε β) Q s s' :=
  agrees_iff.mpr (accords_ret h)

theorem agrees_fail (e : ε) : Agrees M (.fail e : Prog Res ε β) Q s s' := ⟨rfl, nofun⟩

theorem agrees_ask {q : ι} {Q : Res q → σ → σ → Prop} (heq : (M.exec q s).1 = (M.exec q s').1)
    (h : Q (M.exec q s).1 (M.exec q s).2 (M.exec q s').2) :
    Agrees M (Prog.ask q : Prog Res ε (Res q)) Q s s' := by
  refine ⟨congrArg Except.ok heq, fun b hb ↦ ?_⟩
  obtain rfl : (M.exec q s).1 = b := Except.ok.inj hb
  exact h

theorem agrees_bind {p : Prog Res ε β} {f : β → Prog Res ε γ} {Q : γ → σ → σ → Prop}
    (h : Agrees M p (fun b ↦ Agrees M (f b) Q) s s') : Agrees M (p >>= f) Q s s' :=
  agrees_iff.mpr (accords_bind ((agrees_iff.mp h).mono (fun _ _ _ ↦ agrees_iff.mp)
    fun _ _ _ ↦ id))

theorem agrees_okOr {e : ε} {o : Option β} (h : ∀ b, o = some b → Q b s s') :
    Agrees M (Prog.okOr e o : Prog Res ε β) Q s s' := by
  cases o with
  | none => exact agrees_fail e
  | some b => exact agrees_ret (h b rfl)

theorem Agrees.mono {p : Prog Res ε β} {Q' : β → σ → σ → Prop} (h : Agrees M p Q s s')
    (hQ : ∀ b t t', Q b t t' → Q' b t t') : Agrees M p Q' s s' :=
  ⟨h.1, fun b hb ↦ hQ b _ _ (h.2 b hb)⟩

theorem Agrees.and_settles {p : Prog Res ε β} {Q' : β → σ → Prop} {E : ε → σ → Prop}
    (h : Agrees M p Q s s') (h' : Settles M p Q' E s) :
    Agrees M p (fun b t t' ↦ Q b t t' ∧ Q' b t) s s' :=
  ⟨h.1, fun b hb ↦ ⟨h.2 b hb, h'.alone.1 b _ (Prod.ext hb rfl)⟩⟩

/-- A program whose statements answer alike in related stores. -/
theorem agrees_of_only {S : ι → Prop} {R : σ → σ → Prop} {p : Prog Res ε β} (hp : p.Only S)
    (hS : ∀ q, S q → ∀ s s', R s s' →
      (M.exec q s).1 = (M.exec q s').1 ∧ R (M.exec q s).2 (M.exec q s').2) (h : R s s') :
    Agrees M p (fun _ ↦ R) s s' := by
  induction p generalizing s s' with
  | ret b => exact agrees_ret h
  | fail e => exact agrees_fail e
  | stmt q next ih =>
      obtain ⟨hsame, hR⟩ := hS q hp.1 s s' h
      have hnext := ih _ (hp.2 (M.exec q s).1) hR
      unfold Agrees at hnext ⊢
      simp only [Prog.alone, ← hsame]
      exact hnext

end Agrees

end Interleave
