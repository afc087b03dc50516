import ApiStarter.Interleave.Prog
import Mathlib.Data.List.Basic

/-!
# Interleaved runs

Any number of requests are in flight at once.  A step starts a request, runs
one statement of one of them, lets a statement fail without writing, delivers
an answer, cuts a request off, or lets the environment move.  The history keeps
every statement with the store it ran on, newest first, so that properties of
whole runs are properties of a history.
-/

namespace Interleave

/-- How statements and the environment act on the store.  `fault q` is what the
caller sees when the store cannot run `q` (`none`: `q` cannot fail that way). -/
structure Machine {ι : Type} (Res : ι → Type) (σ η : Type) where
  exec : (q : ι) → σ → Res q × σ
  fault : (q : ι) → Option (Res q)
  env : η → σ → σ

inductive Event (ι σ κ ε α : Type) : Type
  /-- Thread `tid`, serving `request`, ran `q` on the store `before`. -/
  | ran (tid : ℕ) (request : κ) (q : ι) (before : σ)
  | answered (tid : ℕ) (request : κ) (answer : Except ε α) (store : σ)

namespace Event

variable {ι σ κ ε α : Type}

def tid : Event ι σ κ ε α → ℕ
  | ran i _ _ _ => i
  | answered i _ _ _ => i

def request : Event ι σ κ ε α → κ
  | ran _ k _ _ => k
  | answered _ k _ _ => k

@[simp] theorem tid_ran (i : ℕ) (k : κ) (q : ι) (s : σ) :
    (ran i k q s : Event ι σ κ ε α).tid = i := rfl
@[simp] theorem tid_answered (i : ℕ) (k : κ) (a : Except ε α) (s : σ) :
    (answered i k a s : Event ι σ κ ε α).tid = i := rfl
@[simp] theorem request_ran (i : ℕ) (k : κ) (q : ι) (s : σ) :
    (ran i k q s : Event ι σ κ ε α).request = k := rfl
@[simp] theorem request_answered (i : ℕ) (k : κ) (a : Except ε α) (s : σ) :
    (answered i k a s : Event ι σ κ ε α).request = k := rfl

end Event

@[ext] structure World (ι σ κ ε α : Type) where
  store : σ
  history : List (Event ι σ κ ε α)

/-- A request in flight; `rest = none` once it was answered or cut off. -/
structure Thread {ι : Type} (Res : ι → Type) (κ ε α : Type) where
  request : κ
  rest : Option (Prog Res ε α)

structure Config {ι : Type} (Res : ι → Type) (σ κ ε α : Type) where
  world : World ι σ κ ε α
  pool : List (Thread Res κ ε α)

inductive Action (κ η : Type) : Type
  | start (request : κ)
  | run (tid : ℕ)
  | fault (tid : ℕ)
  | answer (tid : ℕ)
  | cut (tid : ℕ)
  | env (move : η)

variable {ι σ κ η ε α : Type} {Res : ι → Type}

namespace World

variable (M : Machine Res σ η) (W : World ι σ κ ε α)

def ran (i : ℕ) (k : κ) (q : ι) : World ι σ κ ε α :=
  ⟨(M.exec q W.store).2, .ran i k q W.store :: W.history⟩

def answered (i : ℕ) (k : κ) (a : Except ε α) : World ι σ κ ε α :=
  ⟨W.store, .answered i k a W.store :: W.history⟩

def moved (x : η) : World ι σ κ ε α := ⟨M.env x W.store, W.history⟩

@[simp] theorem ran_store (i : ℕ) (k : κ) (q : ι) :
    (W.ran M i k q).store = (M.exec q W.store).2 := rfl
@[simp] theorem ran_history (i : ℕ) (k : κ) (q : ι) :
    (W.ran M i k q).history = .ran i k q W.store :: W.history := rfl
@[simp] theorem answered_store (i : ℕ) (k : κ) (a : Except ε α) :
    (W.answered i k a).store = W.store := rfl
@[simp] theorem answered_history (i : ℕ) (k : κ) (a : Except ε α) :
    (W.answered i k a).history = .answered i k a W.store :: W.history := rfl
@[simp] theorem moved_store (x : η) : (W.moved M x).store = M.env x W.store := rfl
@[simp] theorem moved_history (x : η) : (W.moved M x).history = W.history := rfl

end World

/-- How `p` ends, and what it leaves behind, when nothing else runs. -/
def Prog.alone (M : Machine Res σ η) : Prog Res ε α → σ → Except ε α × σ
  | .ret a, s => (.ok a, s)
  | .fail e, s => (.error e, s)
  | .stmt q next, s => (next (M.exec q s).1).alone M (M.exec q s).2

namespace Config

def setRest (c : Config Res σ κ ε α) (i : ℕ) (k : κ) (p : Option (Prog Res ε α))
    (W : World ι σ κ ε α) : Config Res σ κ ε α :=
  ⟨W, c.pool.set i ⟨k, p⟩⟩

variable (M : Machine Res σ η) (handle : κ → Prog Res ε α)

/-- One step of the system; `none` when the action is not possible. -/
def perform (c : Config Res σ κ ε α) : Action κ η → Option (Config Res σ κ ε α)
  | .start k => some ⟨c.world, c.pool ++ [⟨k, some (handle k)⟩]⟩
  | .run i =>
      match c.pool[i]? with
      | some ⟨k, some (.stmt q next)⟩ =>
          some (c.setRest i k (some (next (M.exec q c.world.store).1)) (c.world.ran M i k q))
      | _ => none
  | .fault i =>
      match c.pool[i]? with
      | some ⟨k, some (.stmt q next)⟩ =>
          (M.fault q).map fun r ↦ c.setRest i k (some (next r)) c.world
      | _ => none
  | .answer i =>
      match c.pool[i]? with
      | some ⟨k, some (.ret a)⟩ => some (c.setRest i k none (c.world.answered i k (.ok a)))
      | some ⟨k, some (.fail e)⟩ => some (c.setRest i k none (c.world.answered i k (.error e)))
      | _ => none
  | .cut i =>
      match c.pool[i]? with
      | some ⟨k, some _⟩ => some (c.setRest i k none c.world)
      | _ => none
  | .env x => some ⟨c.world.moved M x, c.pool⟩

def performAll (c : Config Res σ κ ε α) : List (Action κ η) → Option (Config Res σ κ ε α)
  | [] => some c
  | a :: as => (c.perform M handle a).bind fun c' ↦ c'.performAll as

end Config

/-- The starting point of a run: a store, nothing in flight, no history. -/
def Config.initial (s : σ) : Config Res σ κ ε α := ⟨⟨s, []⟩, []⟩

/-- Actions that start no request outside `allowed`. -/
def Action.Starts (allowed : κ → Prop) : Action κ η → Prop
  | .start k => allowed k
  | _ => True

instance {allowed : κ → Prop} [DecidablePred allowed] :
    DecidablePred fun a : Action κ η ↦ a.Starts allowed
  | .start k => inferInstanceAs (Decidable (allowed k))
  | .run _ => .isTrue trivial
  | .fault _ => .isTrue trivial
  | .answer _ => .isTrue trivial
  | .cut _ => .isTrue trivial
  | .env _ => .isTrue trivial

/-- Configurations some run from `s` reaches, starting only `allowed` requests. -/
inductive Reachable (M : Machine Res σ η) (handle : κ → Prog Res ε α) (allowed : κ → Prop)
    (s : σ) : Config Res σ κ ε α → Prop
  | initial : Reachable M handle allowed s (.initial s)
  | step {c c' : Config Res σ κ ε α} (a : Action κ η) (hc : Reachable M handle allowed s c)
      (ha : a.Starts allowed) (h : c.perform M handle a = some c') :
      Reachable M handle allowed s c'

variable {M : Machine Res σ η} {handle : κ → Prog Res ε α} {allowed : κ → Prop} {s : σ}

theorem Reachable.performAll {c c' : Config Res σ κ ε α} {as : List (Action κ η)}
    (hc : Reachable M handle allowed s c) (has : ∀ a ∈ as, a.Starts allowed)
    (h : c.performAll M handle as = some c') : Reachable M handle allowed s c' := by
  induction as generalizing c with
  | nil =>
      simp only [Config.performAll, Option.some.injEq] at h
      exact h ▸ hc
  | cons a as ih =>
      obtain ⟨d, hd, hrest⟩ := Option.bind_eq_some_iff.mp h
      exact ih (hc.step a (has a (by simp)) hd) (fun b hb ↦ has b (by simp [hb])) hrest

/-- A schedule that can be performed reaches a configuration that passes its test. -/
theorem Reachable.of_schedule (as : List (Action κ η)) (test : Config Res σ κ ε α → Bool)
    (has : ∀ a ∈ as, a.Starts allowed)
    (h : ((Config.initial s).performAll M handle as).any test = true) :
    ∃ c, Reachable M handle allowed s c ∧ test c = true := by
  obtain ⟨c, hc, htest⟩ := (Option.any_eq_true ..).mp h
  exact ⟨c, Reachable.initial.performAll has hc, htest⟩

theorem Reachable.mono {allowed' : κ → Prop} {c : Config Res σ κ ε α}
    (hc : Reachable M handle allowed s c) (h : ∀ k, allowed k → allowed' k) :
    Reachable M handle allowed' s c := by
  induction hc with
  | initial => exact .initial
  | step a _ ha hp ih =>
      refine ih.step a ?_ hp
      cases a with
      | start k => exact h k ha
      | _ => trivial

end Interleave
