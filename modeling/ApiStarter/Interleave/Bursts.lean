import ApiStarter.Interleave.Histories

/-!
# Bursts

Some statements only look at what the caller holds in its hands, such as the
clock, and the statement that uses their answer follows at once.  A burst runs
such statements up to and including the next one that goes to the shared store.

A schedule is a list of turns that can be taken in any configuration.  Requests
that are not served keep their place in the pool, so that two runs of one
schedule can be compared thread by thread.
-/

namespace Interleave

inductive Turn (κ η : Type) : Type
  | start (request : κ)
  /-- One burst; the statement it ends with fails if `faulty` and if it can. -/
  | advance (tid : ℕ) (faulty : Bool)
  | cut (tid : ℕ)
  | env (move : η)

variable {ι σ κ η ε α : Type} {Res : ι → Type}

theorem Along.of_suffix {P : Event ι σ κ ε α → List (Event ι σ κ ε α) → Prop}
    {h h' : List (Event ι σ κ ε α)} (hP : Along P h') (hsuffix : h <:+ h') : Along P h := by
  obtain ⟨new, rfl⟩ := hsuffix
  induction new with
  | nil => exact hP
  | cons e new ih => exact ih hP.2

section Definitions

variable (M : Machine Res σ η)

/-- What the caller sees when `q` is to fail; `none` when it is run. -/
def Machine.failure (faulty : Bool) (q : ι) : Option (Res q) := if faulty then M.fault q else none

/-- The local statements `p` stands before, then one more statement. -/
def Prog.burst (isLocal : ι → Bool) (faulty : Bool) (i : ℕ) (k : κ) :
    Prog Res ε α → World ι σ κ ε α → Prog Res ε α × World ι σ κ ε α
  | .ret a, W => (.ret a, W)
  | .fail e, W => (.fail e, W)
  | .stmt q next, W =>
      if isLocal q then
        (next (M.exec q W.store).1).burst isLocal faulty i k (W.ran M i k q)
      else match M.failure faulty q with
        | some r => (next r, W)
        | none => (next (M.exec q W.store).1, W.ran M i k q)

variable (handle : κ → Prog Res ε α) (isLocal : ι → Bool) (served : κ → Bool)

def Config.turn (c : Config Res σ κ ε α) : Turn κ η → Config Res σ κ ε α
  | .start k => ⟨c.world, c.pool ++ [⟨k, some (handle k)⟩]⟩
  | .advance i faulty =>
      match c.pool[i]? with
      | some ⟨k, some p⟩ =>
          if served k then
            c.setRest i k (some (p.burst M isLocal faulty i k c.world).1)
              (p.burst M isLocal faulty i k c.world).2
          else c
      | _ => c
  | .cut i =>
      match c.pool[i]? with
      | some ⟨k, some _⟩ => if served k then c.setRest i k none c.world else c
      | _ => c
  | .env x => ⟨c.world.moved M x, c.pool⟩

def Config.turns (c : Config Res σ κ ε α) (ts : List (Turn κ η)) : Config Res σ κ ε α :=
  ts.foldl (fun c t ↦ c.turn M handle isLocal served t) c

end Definitions

/-- How thread `i` ended; `none` while it has not. -/
def Config.outcome (c : Config Res σ κ ε α) (i : ℕ) : Option (Except ε α) :=
  match c.pool[i]? with
  | some ⟨_, some (.ret a)⟩ => some (.ok a)
  | some ⟨_, some (.fail e)⟩ => some (.error e)
  | _ => none

def Config.request? (c : Config Res σ κ ε α) (i : ℕ) : Option κ :=
  (c.pool[i]?).map Thread.request

theorem Config.setRest_self {c : Config Res σ κ ε α} {i : ℕ} {k : κ} {p : Option (Prog Res ε α)}
    (hi : c.pool[i]? = some ⟨k, p⟩) : c.setRest i k p c.world = c := by
  obtain ⟨hlt, heq⟩ := List.getElem?_eq_some_iff.mp hi
  have hpool : c.pool.set i ⟨k, p⟩ = c.pool := by
    rw [← heq]
    exact List.set_getElem_self hlt
  simp only [setRest, hpool]

theorem Config.setRest_setRest (c : Config Res σ κ ε α) (i : ℕ) (k : κ)
    (p p' : Option (Prog Res ε α)) (W W' : World ι σ κ ε α) :
    (c.setRest i k p W).setRest i k p' W' = c.setRest i k p' W' := by
  simp [setRest]

section Steps

variable {M : Machine Res σ η} {handle : κ → Prog Res ε α} {isLocal : ι → Bool}
  {served : κ → Bool} {faulty : Bool} {i : ℕ} {k : κ}

/-- Threads that are not served stay as they are. -/
theorem Config.turn_unserved {c : Config Res σ κ ε α} {p : Option (Prog Res ε α)}
    (hi : c.pool[i]? = some ⟨k, p⟩) (hk : served k = false) (faulty : Bool) :
    c.turn M handle isLocal served (.advance i faulty) = c ∧
      c.turn M handle isLocal served (.cut i) = c := by
  cases p with
  | none => simp [turn, hi]
  | some p => simp [turn, hi, hk]

theorem Prog.burst_local {q : ι} (hq : isLocal q = true) (next : Res q → Prog Res ε α)
    (W : World ι σ κ ε α) : (Prog.stmt q next).burst M isLocal faulty i k W =
      (next (M.exec q W.store).1).burst M isLocal faulty i k (W.ran M i k q) := by
  conv_lhs => rw [burst]
  exact if_pos hq

theorem Prog.burst_failed {q : ι} (hq : isLocal q = false) {r : Res q}
    (hr : M.failure faulty q = some r) (next : Res q → Prog Res ε α) (W : World ι σ κ ε α) :
    (Prog.stmt q next).burst M isLocal faulty i k W = (next r, W) := by
  simp [burst, hq, hr]

theorem Prog.burst_shared {q : ι} (hq : isLocal q = false) (hr : M.failure faulty q = none)
    (next : Res q → Prog Res ε α) (W : World ι σ κ ε α) :
    (Prog.stmt q next).burst M isLocal faulty i k W =
      (next (M.exec q W.store).1, W.ran M i k q) := by
  simp [burst, hq, hr]

theorem fault_of_failure {q : ι} {r : Res q} (hr : M.failure faulty q = some r) :
    M.fault q = some r := by
  unfold Machine.failure at hr
  split at hr
  · exact hr
  · cases hr

theorem Prog.suffix_burst (p : Prog Res ε α) (W : World ι σ κ ε α) :
    W.history <:+ (p.burst M isLocal faulty i k W).2.history := by
  induction p generalizing W with
  | ret a => exact List.suffix_refl _
  | fail e => exact List.suffix_refl _
  | stmt q next ih =>
      cases hq : isLocal q with
      | true =>
          rw [Prog.burst_local hq]
          have hnew : W.history <:+ (W.ran M i k q).history := List.suffix_cons _ _
          exact hnew.trans (ih _ _)
      | false =>
          cases hr : M.failure faulty q with
          | some r =>
              have hsame : ((Prog.stmt q next).burst M isLocal faulty i k W).2 = W :=
                congrArg Prod.snd (Prog.burst_failed hq hr next W)
              exact hsame.symm ▸ List.suffix_refl _
          | none =>
              rw [Prog.burst_shared hq hr]
              exact List.suffix_cons _ _

theorem Config.suffix_turn (c : Config Res σ κ ε α) (t : Turn κ η) :
    c.world.history <:+ (c.turn M handle isLocal served t).world.history := by
  cases t with
  | start k => exact List.suffix_refl _
  | advance i faulty =>
      simp only [Config.turn]
      split
      · split
        · exact Prog.suffix_burst _ _
        · exact List.suffix_refl _
      · exact List.suffix_refl _
  | cut i =>
      simp only [Config.turn]
      split
      · split <;> exact List.suffix_refl _
      · exact List.suffix_refl _
  | env x => exact List.suffix_refl _

theorem Config.suffix_turns (c : Config Res σ κ ε α) (ts : List (Turn κ η)) :
    c.world.history <:+ (c.turns M handle isLocal served ts).world.history := by
  induction ts generalizing c with
  | nil => exact List.suffix_refl _
  | cons t ts ih => exact (c.suffix_turn t).trans (ih _)

/-! ## Turns are steps -/

section Reachable

variable {allowed : κ → Prop} {s : σ} {c : Config Res σ κ ε α}

theorem Reachable.burst (hc : Reachable M handle allowed s c) {p : Prog Res ε α}
    (hi : c.pool[i]? = some ⟨k, some p⟩) : Reachable M handle allowed s
      (c.setRest i k (some (p.burst M isLocal faulty i k c.world).1)
        (p.burst M isLocal faulty i k c.world).2) := by
  have hlt : i < c.pool.length := (List.getElem?_eq_some_iff.mp hi).1
  induction p generalizing c with
  | ret a => simpa only [Prog.burst, Config.setRest_self hi] using hc
  | fail e => simpa only [Prog.burst, Config.setRest_self hi] using hc
  | stmt q next ih =>
      have hrun : Reachable M handle allowed s
          (c.setRest i k (some (next (M.exec q c.world.store).1)) (c.world.ran M i k q)) :=
        hc.step (.run i) trivial (by simp [Config.perform, hi])
      cases hq : isLocal q with
      | true =>
          have hnext := ih (M.exec q c.world.store).1 hrun
            (by simp [Config.setRest, List.getElem?_set_self hlt]) (by simpa [Config.setRest])
          rw [Config.setRest_setRest] at hnext
          rw [Prog.burst_local hq]
          exact hnext
      | false =>
          cases hr : M.failure faulty q with
          | none => simpa only [Prog.burst_shared hq hr] using hrun
          | some r =>
              have hfailed : Reachable M handle allowed s
                  (c.setRest i k (some (next r)) c.world) :=
                hc.step (.fault i) trivial (by simp [Config.perform, hi, fault_of_failure hr])
              simpa only [Prog.burst_failed hq hr] using hfailed

theorem Reachable.turn (hallowed : ∀ k, allowed k) (hc : Reachable M handle allowed s c)
    (t : Turn κ η) : Reachable M handle allowed s (c.turn M handle isLocal served t) := by
  cases t with
  | start k => exact hc.step (.start k) (hallowed k) rfl
  | advance i faulty =>
      simp only [Config.turn]
      split
      next k p hi =>
        split
        · exact hc.burst hi
        · exact hc
      next => exact hc
  | cut i =>
      simp only [Config.turn]
      split
      next k p hi =>
        split
        · exact hc.step (.cut i) trivial (by simp [Config.perform, hi])
        · exact hc
      next => exact hc
  | env x => exact hc.step (.env x) trivial rfl

theorem Reachable.turns (hallowed : ∀ k, allowed k) (hc : Reachable M handle allowed s c)
    (ts : List (Turn κ η)) : Reachable M handle allowed s (c.turns M handle isLocal served ts) := by
  induction ts generalizing c with
  | nil => exact hc
  | cons t ts ih => exact ih (hc.turn hallowed t)

end Reachable

end Steps

end Interleave
