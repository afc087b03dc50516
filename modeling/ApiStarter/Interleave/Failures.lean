import ApiStarter.Interleave.Histories

/-!
# What programs fail with

The errors a program can end in, given what is known of the answers of its
statements; and from this the errors that a whole run can answer.  What the
answers are is a fact about the run, what the program makes of them one about
the program alone.  A machine is reliable when no statement of it is lost.
-/

namespace Interleave

variable {ι σ κ η ε ε' α β : Type} {Res : ι → Type}

namespace Prog

/-- As long as the answers satisfy `R`, `p` only fails with errors in `E`. -/
def Raises (R : (q : ι) → Res q → Prop) (E : ε → Prop) : Prog Res ε α → Prop
  | ret _ => True
  | fail e => E e
  | stmt q next => ∀ r, R q r → (next r).Raises R E

variable {R : (q : ι) → Res q → Prop} {E : ε → Prop} {E' : ε' → Prop}

@[simp] theorem raises_ret (a : α) : (ret a : Prog Res ε α).Raises R E := trivial
@[simp] theorem raises_fail (e : ε) : (fail e : Prog Res ε α).Raises R E ↔ E e := Iff.rfl
@[simp] theorem raises_stmt (q : ι) (next : Res q → Prog Res ε α) :
    (stmt q next).Raises R E ↔ ∀ r, R q r → (next r).Raises R E := Iff.rfl

theorem Raises.bind {p : Prog Res ε α} {f : α → Prog Res ε β} (hp : p.Raises R E)
    (hf : ∀ a, (f a).Raises R E) : (p >>= f).Raises R E := by
  induction p with
  | ret a => exact hf a
  | fail e => exact hp
  | stmt q next ih => exact fun r hr ↦ ih r (hp r hr)

/-- Turning the answer of a program into another one cannot fail. -/
@[simp] theorem raises_map {p : Prog Res ε α} {f : α → β} :
    (p >>= fun a ↦ ret (f a)).Raises R E ↔ p.Raises R E := by
  induction p with
  | ret a => exact Iff.rfl
  | fail e => exact Iff.rfl
  | stmt q next ih => exact forall_congr' fun r ↦ imp_congr_right fun _ ↦ ih r

/-- What happens to an error is up to the program that catches it. -/
theorem raises_bindBoth {p : Prog Res ε α} {f : Except ε α → Prog Res ε' β}
    (hf : ∀ a, (f a).Raises R E') : (p.bindBoth f).Raises R E' := by
  induction p with
  | ret a => exact hf (.ok a)
  | fail e => exact hf (.error e)
  | stmt q next ih => exact fun r _ ↦ ih r

theorem raises_attempt (p : Prog Res ε α) :
    (p.attempt : Prog Res ε' (Except ε α)).Raises R E' := raises_bindBoth fun _ ↦ trivial

@[simp] theorem raises_ask (q : ι) : (ask q : Prog Res ε (Res q)).Raises R E := fun _ _ ↦ trivial

@[simp] theorem raises_okOr {e : ε} {o : Option α} :
    (okOr e o : Prog Res ε α).Raises R E ↔ (o = none → E e) := by
  cases o <;> simp

@[simp] theorem raises_okOr_bind {e : ε} {o : Option α} {f : α → Prog Res ε β} :
    (okOr e o >>= f).Raises R E ↔ (o = none → E e) ∧ ∀ a, o = some a → (f a).Raises R E := by
  cases o <;> simp

@[simp] theorem raises_ensure {c : Prop} [Decidable c] {e : ε} :
    (ensure c e : Prog Res ε Unit).Raises R E ↔ (¬c → E e) := by
  by_cases h : c <;> simp [ensure, h]

@[simp] theorem raises_ensure_bind {c : Prop} [Decidable c] {e : ε} {f : Unit → Prog Res ε β} :
    (ensure c e >>= f).Raises R E ↔ (¬c → E e) ∧ (c → (f ()).Raises R E) := by
  by_cases h : c <;> simp [ensure, h]

theorem raises_ite {c : Prop} [Decidable c] {p p' : Prog Res ε α} :
    (if c then p else p').Raises R E ↔ (c → p.Raises R E) ∧ (¬c → p'.Raises R E) := by
  by_cases h : c <;> simp [h]

end Prog

section Runs

variable {M : Machine Res σ η} {handle : κ → Prog Res ε α} {allowed : κ → Prop} {s : σ}
  {c c' : Config Res σ κ ε α}

/-- The same machine, none of whose statements is lost. -/
def Machine.reliable (M : Machine Res σ η) : Machine Res σ η := { M with fault := fun _ ↦ none }

/-- What is reached without losing a statement is reached. -/
theorem Reachable.of_reliable (hc : Reachable M.reliable handle allowed s c) :
    Reachable M handle allowed s c := by
  induction hc with
  | initial => exact .initial
  | step a _ ha h ih =>
      refine ih.step a ha ?_
      cases a with
      | fault i =>
          simp only [Config.perform] at h
          split at h
          · cases h
          · cases h
      | _ => exact h

/-- What is left of every request in flight raises only `E`. -/
def Config.Raising (R : κ → (q : ι) → Res q → Prop) (E : ε → Prop) (c : Config Res σ κ ε α) :
    Prop :=
  ∀ (i : ℕ) (k : κ) (p : Prog Res ε α), c.pool[i]? = some ⟨k, some p⟩ → p.Raises (R k) E

variable {R : κ → (q : ι) → Res q → Prop} {E : ε → Prop}

theorem Config.Raising.setRest (hc : c.Raising R E) {i : ℕ} {k : κ} {p : Option (Prog Res ε α)}
    {W : World ι σ κ ε α} (hp : ∀ p', p = some p' → p'.Raises (R k) E) :
    (c.setRest i k p W).Raising R E := by
  intro j k' p' hj
  by_cases hij : i = j
  · subst hij
    simp only [Config.setRest, List.getElem?_set] at hj
    split at hj
    · split at hj
      · simp only [Option.some.injEq, Thread.mk.injEq] at hj
        obtain ⟨rfl, rfl⟩ := hj
        exact hp p' rfl
      · cases hj
    · contradiction
  · rw [Config.setRest, List.getElem?_set_ne hij] at hj
    exact hc j k' p' hj

/-- When every statement that ran was answered as the programs expect, the errors answered are
those that the programs raise. -/
theorem Reachable.raised (hc : Reachable M.reliable handle allowed s c)
    (hhandle : ∀ k, allowed k → (handle k).Raises (R k) E)
    (hR : ∀ i k q b, .ran i k q b ∈ c.world.history → R k q (M.exec q b).1) :
    ∀ i k e b, .answered i k (.error e) b ∈ c.world.history → E e := by
  suffices hboth : (∀ i k e b, .answered i k (.error e) b ∈ c.world.history → E e) ∧
      c.Raising R E from hboth.1
  induction hc with
  | initial =>
      refine ⟨fun i k e b h ↦ ?_, fun i k p h ↦ ?_⟩
      · simp [Config.initial] at h
      · simp [Config.initial] at h
  | step a _ ha h ih =>
      rcases Config.perform_cases h with ⟨k, rfl, rfl⟩ | ⟨i, k, q, next, rfl, hi, rfl⟩ |
        ⟨i, k, q, next, r, rfl, hi, hr, rfl⟩ | ⟨i, k, rfl, ⟨b, hi, rfl⟩ | ⟨e, hi, rfl⟩⟩ |
        ⟨i, k, p, rfl, hi, rfl⟩ | ⟨x, rfl, rfl⟩
      · obtain ⟨hanswers, hpool⟩ := ih hR
        refine ⟨hanswers, fun j k' p hj ↦ ?_⟩
        rcases List.mem_append.mp (List.mem_of_getElem? hj) with hmem | hmem
        · obtain ⟨j', hj'⟩ := List.mem_iff_getElem?.mp hmem
          exact hpool j' k' p hj'
        · cases List.mem_singleton.mp hmem
          exact hhandle k ha
      · obtain ⟨hanswers, hpool⟩ := ih fun i k q b hmem ↦ hR i k q b (List.mem_cons_of_mem _ hmem)
        refine ⟨fun j k' e b hmem ↦ ?_, hpool.setRest fun p hp ↦ ?_⟩
        · exact hanswers j k' e b (by simpa [Config.setRest] using hmem)
        · cases hp
          exact hpool i k _ hi _ (hR i k q _ List.mem_cons_self)
      · cases hr
      · obtain ⟨hanswers, hpool⟩ := ih fun i k q b hmem ↦ hR i k q b (List.mem_cons_of_mem _ hmem)
        refine ⟨fun j k' e b hmem ↦ ?_, hpool.setRest (by simp)⟩
        exact hanswers j k' e b (by simpa [Config.setRest] using hmem)
      · obtain ⟨hanswers, hpool⟩ := ih fun i k q b hmem ↦ hR i k q b (List.mem_cons_of_mem _ hmem)
        refine ⟨fun j k' e' b hmem ↦ ?_, hpool.setRest (by simp)⟩
        rcases List.mem_cons.mp hmem with heq | hmem
        · cases heq
          exact hpool i k _ hi
        · exact hanswers j k' e' b hmem
      · obtain ⟨hanswers, hpool⟩ := ih hR
        exact ⟨hanswers, hpool.setRest (by simp)⟩
      · exact ih hR

end Runs

end Interleave
