import ApiStarter.Common
import ApiStarter.Interleave.Systems
import ApiStarter.Limits.Semaphore
import Mathlib.Data.List.Perm.Subperm

/-!
# The cap on simultaneous hashes

`common/security/password.rs`: hashing and verifying a password run on the
blocking pool, each with one of a fixed number of permits.  A caller can be cut
off at any moment; what it started goes on, and keeps its permit until it ends.
The semaphore may be any that gives out its permits in the order they are asked
for.
-/

namespace ApiStarter

open Interleave Limits

/-! ## `run_limited` -/

inductive Phase (β : Type)
  /-- In `acquire_owned`. -/
  | waiting
  /-- The work was handed to the blocking pool. -/
  | joining
  | answered (answer : Except AppError β)
  /-- The request was cut off. -/
  | cancelled
  deriving DecidableEq

structure Call (β : Type) where
  /-- What the work returns, `none` where it panics. -/
  work : Option β
  phase : Phase β
  deriving DecidableEq

def Call.outcome {β : Type} (call : Call β) : Except AppError β :=
  match call.work with
  | some result => .ok result
  | none => .error .internal

/-- The work of the call has ended. -/
def Call.settle {β : Type} (call : Call β) : Call β :=
  match call.phase with
  | .joining => { call with phase := .answered call.outcome }
  | _ => call

/-- `P` is what the semaphore is. -/
structure Limited (P β : Type) where
  permits : P
  calls : List (Call β)
  /-- Calls whose work waits for a thread of the blocking pool. -/
  pending : List ℕ
  running : List ℕ
  deriving DecidableEq

namespace Limited

variable {P β : Type}

def new (permits : P) : Limited P β := ⟨permits, [], [], []⟩

/-- Call `i` got its permit, which moves into the blocking task. -/
def spawn (l : Limited P β) (i : ℕ) : Limited P β :=
  { l with
    calls := l.calls.modify i fun call ↦ { call with phase := .joining }
    pending := i :: l.pending }

inductive Action (β : Type)
  | runLimited (work : Option β)
  /-- A call that was assigned a permit goes on. -/
  | wake (i : ℕ)
  /-- A thread of the blocking pool takes up the work of the call. -/
  | begin (i : ℕ)
  | finish (i : ℕ)
  /-- The future of the call is dropped. -/
  | cancel (i : ℕ)

def perform (ops : Permits ℕ P) (l : Limited P β) : Action β → Option (Limited P β)
  | .runLimited work =>
      let asked : Limited P β := { l with calls := l.calls ++ [⟨work, .waiting⟩] }
      match ops.acquire? l.permits with
      | some permits => some ({ asked with permits := permits }.spawn l.calls.length)
      | none => some { asked with permits := ops.wait l.permits l.calls.length }
  | .wake i => (ops.takeUp? l.permits i).map fun permits ↦ { l with permits := permits }.spawn i
  | .begin i =>
      if i ∈ l.pending then
        some { l with pending := l.pending.erase i, running := i :: l.running }
      else none
  | .finish i =>
      if i ∈ l.running then
        some { l with
          permits := ops.release l.permits
          calls := l.calls.modify i Call.settle
          running := l.running.erase i }
      else none
  | .cancel i =>
      match l.calls[i]? with
      | some ⟨work, .waiting⟩ => some { l with
          permits := ops.forget l.permits i
          calls := l.calls.set i ⟨work, .cancelled⟩ }
      | some ⟨work, .joining⟩ => some { l with calls := l.calls.set i ⟨work, .cancelled⟩ }
      | _ => none

/-- The calls whose work holds a permit. -/
def tasks (l : Limited P β) : List ℕ := l.pending ++ l.running

end Limited

/-! ## The permits of the process -/

def defaultMaxConcurrentHashes : ℕ := 8

/-- `tokio::sync::Semaphore::MAX_PERMITS`, which is `usize::MAX >> 3`. -/
def maxPermits : ℕ := (UInt64.size - 1) >>> 3

/-- The static `PERMITS` and what goes on behind it, `none` while it is not set. -/
abbrev Hashing (P β : Type) := Option (Limited P β)

namespace Hashing

variable {P β : Type}

inductive Action (β : Type)
  | setMaxConcurrentHashes (cap : ℕ)
  | availablePermits
  /-- `hash_blocking` or `verify_blocking`, and what follows from it. -/
  | hash (a : Limited.Action β)

variable (ops : Permits ℕ P)

def permits (s : Hashing P β) : Option (Limited P β) :=
  s.orElse fun _ ↦ (ops.new defaultMaxConcurrentHashes).map .new

/-- Where the semaphore refuses the cap, setting it panics and leaves `PERMITS` as it is. -/
def system (β : Type) : System (Hashing P β) (Action β) where
  perform s
    | .setMaxConcurrentHashes cap =>
        some (s.orElse fun _ ↦ (ops.new (max cap 1)).map .new)
    | .availablePermits => (permits ops s).map some
    | .hash a => ((permits ops s).bind fun l ↦ l.perform ops a).map some

/-- What an action makes of a cap that is not set. -/
def Action.sets : Action β → Option ℕ
  | .setMaxConcurrentHashes cap => if max cap 1 ≤ maxPermits then some (max cap 1) else none
  | _ => some defaultMaxConcurrentHashes

/-- The cap: what the first action sets it to that sets one. -/
def capOf : List (Hashing P β × Action β) → Option ℕ
  | [] => none
  | (_, a) :: earlier => (capOf earlier).orElse fun _ ↦ a.sets

def Action.works : Action β → List (Option β)
  | .hash (.runLimited work) => [work]
  | _ => []

/-- The works that were handed to `run_limited`, the oldest first. -/
def worksOf : List (Hashing P β × Action β) → List (Option β)
  | [] => []
  | (_, a) :: earlier => worksOf earlier ++ a.works

/-- Work that was begun goes on, without new calls and without cancellations. -/
def Action.goesOn : Action β → Bool
  | .hash (.wake _) | .hash (.begin _) | .hash (.finish _) => true
  | _ => false

end Hashing

/-! ## What every step keeps -/

/-- The cap is counted. -/
abbrev countedPermits : Permits ℕ (Semaphore ℕ) := Semaphore.permits maxPermits

namespace Limited

/-- What goes on behind a semaphore that counts. -/
abbrev Counted (β : Type) := Limited (Semaphore ℕ) β

variable {β : Type}

/-- The work is that of the calls, and calls are served in the order they came in. -/
structure Kept (l : Counted β) : Prop where
  joining : ∀ i work, l.calls[i]? = some ⟨work, .joining⟩ → i ∈ l.tasks
  owned : ∀ i ∈ l.tasks, ∃ work, l.calls[i]? = some ⟨work, .joining⟩ ∨
    l.calls[i]? = some ⟨work, .cancelled⟩
  nodup : l.tasks.Nodup
  answers : ∀ (i : ℕ) work answer, l.calls[i]? = some ⟨work, .answered answer⟩ →
    answer = Call.outcome ⟨work, .joining⟩
  sorted : l.permits.queue.Pairwise (· < ·)
  inOrder : ∀ i ∈ l.permits.queue, ∀ j, i < j → ∀ call, l.calls[j]? = some call →
    j ∈ l.permits.queue ∨ call.phase = .cancelled

/-- Every permit is free, assigned to a call that waits, or with the work of a call. -/
structure Sound (cap : ℕ) (l : Counted β) : Prop extends l.Kept where
  permits : l.permits.Sound cap l.tasks.length
  waiting : ∀ i, i ∈ l.permits.waiters ↔ ∃ work, l.calls[i]? = some ⟨work, .waiting⟩

variable {cap : ℕ} {l l' : Counted β} {i : ℕ}

theorem sound_new (cap : ℕ) : (new (.new cap) : Counted β).Sound cap where
  joining i work h := by simp [new] at h
  owned i h := by simp [new, tasks] at h
  nodup := List.nodup_nil
  answers i work answer h := by simp [new] at h
  sorted := List.Pairwise.nil
  inOrder i h := by simp [new, Semaphore.new] at h
  permits := Semaphore.sound_new cap
  waiting i := by simp [new, Semaphore.new, Semaphore.waiters]

@[simp] theorem tasks_spawn (l : Counted β) (i : ℕ) : (l.spawn i).tasks = i :: l.tasks := rfl
@[simp] theorem permits_spawn (l : Counted β) (i : ℕ) : (l.spawn i).permits = l.permits := rfl

theorem calls_spawn {work : Option β} (hcall : l.calls[i]? = some ⟨work, .waiting⟩) (j : ℕ) :
    (l.spawn i).calls[j]? = if i = j then some ⟨work, .joining⟩ else l.calls[j]? := by
  unfold spawn
  rw [List.getElem?_modify]
  split
  next h =>
    subst h
    simp [hcall]
  next => simp

/-- A call that waited is handed to the blocking pool with a permit it took. -/
theorem Kept.spawn (hl : l.Kept) {work : Option β} (hcall : l.calls[i]? = some ⟨work, .waiting⟩)
    (hpermits : l.permits.Sound cap (l.tasks.length + 1))
    (hwaiting : ∀ j, j ∈ l.permits.waiters ↔ j ≠ i ∧ ∃ work, l.calls[j]? = some ⟨work, .waiting⟩) :
    (l.spawn i).Sound cap := by
  have hidle : i ∉ l.tasks := by
    intro hi
    obtain ⟨work', h | h⟩ := hl.owned i hi <;> simp [hcall] at h
  have hqueue : i ∉ l.permits.queue := fun hi ↦
    ((hwaiting i).mp (Semaphore.mem_waiters.mpr (.inr hi))).1 rfl
  constructor
  · constructor
    · intro j work' h
      rw [calls_spawn hcall] at h
      split at h
      next hij => exact hij ▸ List.mem_cons_self
      next => exact List.mem_cons_of_mem _ (hl.joining j work' h)
    · intro j hj
      rw [calls_spawn hcall]
      rcases List.mem_cons.mp hj with rfl | hj
      · exact ⟨work, .inl (if_pos rfl)⟩
      · have hne : i ≠ j := fun hij ↦ hidle (hij ▸ hj)
        simpa [hne] using hl.owned j hj
    · exact List.nodup_cons.mpr ⟨hidle, hl.nodup⟩
    · intro j work' answer h
      rw [calls_spawn hcall] at h
      split at h
      · cases h
      · exact hl.answers j work' answer h
    · exact hl.sorted
    · intro k hk j hkj call h
      rw [calls_spawn hcall] at h
      split at h
      next hij =>
        subst hij
        rcases hl.inOrder k hk i hkj _ hcall with hi | hcancelled
        · exact absurd hi hqueue
        · cases hcancelled
      next => exact hl.inOrder k hk j hkj call h
  · exact hpermits
  · intro j
    rw [permits_spawn, hwaiting, calls_spawn hcall]
    by_cases hij : i = j
    · simp [hij]
    · simp [hij, Ne.symm hij]

/-- A new call waits. -/
def ask (l : Counted β) (work : Option β) (permits : Semaphore ℕ) : Counted β :=
  { l with permits := permits, calls := l.calls ++ [⟨work, .waiting⟩] }

theorem calls_ask (l : Counted β) (work : Option β) (permits : Semaphore ℕ) (j : ℕ) :
    (l.ask work permits).calls[j]? =
      if j = l.calls.length then some ⟨work, .waiting⟩ else l.calls[j]? := by
  unfold ask
  rcases Nat.lt_trichotomy j l.calls.length with hlt | rfl | hgt
  · rw [List.getElem?_append_left hlt, if_neg (by omega)]
  · simp
  · rw [List.getElem?_eq_none (by simp; omega), if_neg (by omega),
      List.getElem?_eq_none (by omega)]

theorem lt_of_call {calls : List (Call β)} {call : Call β} (h : calls[i]? = some call) :
    i < calls.length :=
  (List.getElem?_eq_some_iff.mp h).1

theorem Sound.lt_of_queued (hl : l.Sound cap) (hi : i ∈ l.permits.queue) : i < l.calls.length := by
  obtain ⟨work, h⟩ := (hl.waiting i).mp (Semaphore.mem_waiters.mpr (.inr hi))
  exact lt_of_call h

theorem Sound.ask (hl : l.Sound cap) (work : Option β) {permits : Semaphore ℕ}
    (hqueue : permits.queue = [] ∨ permits.queue = l.permits.queue ++ [l.calls.length]) :
    (l.ask work permits).Kept where
  joining j work' h := by
    rw [calls_ask] at h
    split at h
    · cases h
    · exact hl.joining j work' h
  owned j hj := by
    obtain ⟨work', h⟩ := hl.owned j hj
    have hne : j ≠ l.calls.length := by
      rcases h with h | h <;> exact Nat.ne_of_lt (lt_of_call h)
    exact ⟨work', by rwa [calls_ask, if_neg hne]⟩
  nodup := hl.nodup
  answers j work' answer h := by
    rw [calls_ask] at h
    split at h
    · cases h
    · exact hl.answers j work' answer h
  sorted := by
    rcases hqueue with hqueue | hqueue
    · exact hqueue.symm ▸ List.Pairwise.nil
    · refine hqueue.symm ▸ List.pairwise_append.mpr ⟨hl.sorted, List.pairwise_singleton _ _, ?_⟩
      intro j hj n hn
      rw [List.mem_singleton.mp hn]
      exact hl.lt_of_queued hj
  inOrder k hk j hkj call h := by
    rcases hqueue with hqueue | hqueue
    · exact absurd hk (by simp [Limited.ask, hqueue])
    · change k ∈ permits.queue at hk
      change j ∈ permits.queue ∨ _
      rw [hqueue, List.mem_append, List.mem_singleton] at hk ⊢
      rw [calls_ask] at h
      split at h
      next hj => exact .inl (.inr hj)
      next hj =>
        rcases hk with hk | rfl
        · exact (hl.inOrder k hk j hkj call h).imp_left .inl
        · exact absurd (lt_of_call h) (by omega)

theorem Sound.runLimited (hl : l.Sound cap) {work : Option β}
    (h : l.perform countedPermits (.runLimited work) = some l') : l'.Sound cap := by
  have hfresh : l.calls.length ∉ l.permits.waiters := by
    intro hn
    obtain ⟨work', h⟩ := (hl.waiting _).mp hn
    exact absurd (lt_of_call h) (by omega)
  have hcall (permits : Semaphore ℕ) :
      (l.ask work permits).calls[l.calls.length]? = some ⟨work, .waiting⟩ := by
    rw [calls_ask, if_pos rfl]
  simp only [perform] at h
  split at h
  next permits hacquire =>
    obtain ⟨hfree, hpermits⟩ := Semaphore.acquire?_eq_some hacquire
    have hkept : (l.ask work permits).Kept :=
      hl.ask work (.inl (by rw [hpermits]; exact hl.permits.eager hfree))
    rw [← Option.some.inj h]
    refine hkept.spawn (hcall permits) (hl.permits.acquire hacquire) fun j ↦ ?_
    rw [calls_ask]
    change j ∈ permits.waiters ↔ _
    have hsame : permits.waiters = l.permits.waiters := by rw [hpermits]; rfl
    rw [hsame]
    by_cases hj : j = l.calls.length
    · simp only [hj, hfresh, ne_eq, not_true, false_and]
    · simp only [hj, ne_eq, not_false_iff, true_and, if_false]
      exact hl.waiting j
  next hnone =>
    have hkept := hl.ask work (.inr rfl : (l.permits.wait l.calls.length).queue = [] ∨ _)
    rw [← Option.some.inj h]
    refine { hkept with
      permits := hl.permits.wait (Semaphore.acquire?_eq_none.mp hnone) hfresh
      waiting := fun j ↦ ?_ }
    change j ∈ (l.permits.wait l.calls.length).waiters ↔ ∃ work', (l.ask work _).calls[j]? = _
    rw [Semaphore.mem_waiters_wait, calls_ask, hl.waiting]
    by_cases hj : j = l.calls.length
    · simp [hj]
    · simp [hj]

theorem Sound.wake (hl : l.Sound cap) (h : l.perform countedPermits (.wake i) = some l') :
    l'.Sound cap := by
  obtain ⟨permits, htake, rfl⟩ := Option.map_eq_some_iff.mp h
  obtain ⟨hi, hpermits⟩ := Semaphore.takeUp?_eq_some htake
  obtain ⟨work, hcall⟩ := (hl.waiting i).mp (Semaphore.mem_waiters.mpr (.inl hi))
  have hqueue : permits.queue = l.permits.queue := by rw [hpermits]
  have hkept : ({ l with permits := permits } : Counted β).Kept :=
    { hl with
      sorted := hqueue ▸ hl.sorted
      inOrder := hqueue ▸ hl.inOrder }
  refine hkept.spawn hcall (hl.permits.takeUp htake) fun j ↦ ?_
  rw [← hl.waiting]
  exact hl.permits.mem_takeUp htake

theorem Sound.begin (hl : l.Sound cap) (h : l.perform countedPermits (.begin i) = some l') :
    l'.Sound cap := by
  simp only [perform] at h
  split at h
  next hi =>
    rw [← Option.some.inj h]
    have hperm : (l.pending.erase i ++ i :: l.running).Perm l.tasks :=
      List.perm_middle.trans ((List.perm_cons_erase hi).symm.append_right l.running)
    exact {
      joining := fun j work hj ↦ hperm.mem_iff.mpr (hl.joining j work hj)
      owned := fun j hj ↦ hl.owned j (hperm.mem_iff.mp hj)
      nodup := hperm.nodup_iff.mpr hl.nodup
      answers := hl.answers
      sorted := hl.sorted
      inOrder := hl.inOrder
      permits := by
        change l.permits.Sound cap (l.pending.erase i ++ i :: l.running).length
        rw [hperm.length_eq]
        exact hl.permits
      waiting := hl.waiting }
  next => cases h

/-- Calls behind one that is still in the queue are in it, too, once the first has left it. -/
theorem inOrder_tail {queue : List ℕ} (hsorted : queue.Pairwise (· < ·)) {k j : ℕ}
    (hk : k ∈ queue.tail) (hkj : k < j) (hj : j ∈ queue) : j ∈ queue.tail := by
  cases queue with
  | nil => cases hj
  | cons first rest =>
      rcases List.mem_cons.mp hj with rfl | hrest
      · exact absurd ((List.pairwise_cons.mp hsorted).1 k hk) (by omega)
      · exact hrest

/-- A call ends: it is answered or cut off. -/
theorem Kept.change (hl : l.Kept) {call : Call β} {work : Option β} {phase : Phase β}
    (hcall : l.calls[i]? = some call) (hself : l'.calls[i]? = some ⟨work, phase⟩)
    (hother : ∀ j, i ≠ j → l'.calls[j]? = l.calls[j]?)
    (hphase : phase = .cancelled ∨ phase = .answered (Call.outcome ⟨work, .joining⟩))
    (hstays : call.phase = .cancelled → phase = .cancelled) (hnodup : l'.tasks.Nodup)
    (htasks : ∀ j, i ≠ j → (j ∈ l'.tasks ↔ j ∈ l.tasks))
    (hgoesOn : i ∈ l'.tasks → phase = .cancelled)
    (hqueue : l'.permits.queue = l.permits.queue.tail ∨ phase = .cancelled ∧
      (l'.permits.queue = l.permits.queue.erase i ∨ l'.permits.queue = l.permits.queue)) :
    l'.Kept where
  joining j work' h := by
    by_cases hij : i = j
    · subst hij
      cases hself.symm.trans h
      rcases hphase with hphase | hphase <;> cases hphase
    · exact (htasks j hij).mpr (hl.joining j work' ((hother j hij).symm.trans h))
  owned j hj := by
    by_cases hij : i = j
    · subst hij
      exact ⟨work, .inr (by rw [hself, hgoesOn hj])⟩
    · obtain ⟨work', h⟩ := hl.owned j ((htasks j hij).mp hj)
      exact ⟨work', by rwa [hother j hij]⟩
  nodup := hnodup
  answers j work' answer h := by
    by_cases hij : i = j
    · subst hij
      cases hself.symm.trans h
      rcases hphase with hphase | hphase <;> cases hphase
      rfl
    · exact hl.answers j work' answer ((hother j hij).symm.trans h)
  sorted := by
    rcases hqueue with hqueue | ⟨-, hqueue | hqueue⟩
    · exact hqueue ▸ hl.sorted.sublist (List.tail_sublist _)
    · exact hqueue ▸ hl.sorted.sublist List.erase_sublist
    · exact hqueue ▸ hl.sorted
  inOrder k hk j hkj call' h := by
    have hold : ∀ call, l.calls[j]? = some call → k ∈ l.permits.queue →
        j ∈ l.permits.queue ∨ call.phase = .cancelled :=
      fun call h hk ↦ hl.inOrder k hk j hkj call h
    by_cases hij : i = j
    · subst hij
      cases hself.symm.trans h
      rcases hqueue with hqueue | ⟨hcancelled, -⟩
      · rw [hqueue] at hk ⊢
        exact (hold call hcall (List.mem_of_mem_tail hk)).imp (inOrder_tail hl.sorted hk hkj) hstays
      · exact .inr hcancelled
    · rw [hother j hij] at h
      rcases hqueue with hqueue | ⟨-, hqueue | hqueue⟩
      · rw [hqueue] at hk ⊢
        exact (hold call' h (List.mem_of_mem_tail hk)).imp_left (inOrder_tail hl.sorted hk hkj)
      · rw [hqueue] at hk ⊢
        exact (hold call' h (List.mem_of_mem_erase hk)).imp_left
          (List.mem_erase_of_ne (Ne.symm hij)).mpr
      · rw [hqueue] at hk ⊢
        exact hold call' h hk

theorem Sound.finish (hl : l.Sound cap) (h : l.perform countedPermits (.finish i) = some l') :
    l'.Sound cap := by
  simp only [perform] at h
  split at h
  next hi =>
    rw [← Option.some.inj h]
    have hperm : l.tasks.Perm (i :: (l.pending ++ l.running.erase i)) :=
      ((List.perm_cons_erase hi).append_left l.pending).trans List.perm_middle
    obtain ⟨hout, hnodup⟩ := List.nodup_cons.mp (hperm.nodup_iff.mp hl.nodup)
    obtain ⟨work, hcall⟩ := hl.owned i (hperm.mem_iff.mpr List.mem_cons_self)
    obtain ⟨call, phase, hcall, hself, hphase, hstays, hbusy⟩ : ∃ call phase,
        l.calls[i]? = some call ∧ (l.calls.modify i Call.settle)[i]? = some ⟨work, phase⟩ ∧
          (phase = .cancelled ∨ phase = .answered (Call.outcome ⟨work, .joining⟩)) ∧
            (call.phase = .cancelled → phase = .cancelled) ∧ call.phase ≠ .waiting := by
      rcases hcall with hcall | hcall
      · exact ⟨_, .answered (Call.outcome ⟨work, .joining⟩), hcall, by simp [hcall, Call.settle,
          Call.outcome], .inr rfl, by rintro ⟨⟩, by rintro ⟨⟩⟩
      · exact ⟨_, .cancelled, hcall, by simp [hcall, Call.settle], .inl rfl, fun _ ↦ rfl,
          by rintro ⟨⟩⟩
    have hother (j : ℕ) (hj : i ≠ j) : (l.calls.modify i Call.settle)[j]? = l.calls[j]? := by
      simp [hj]
    constructor
    · refine hl.toKept.change hcall hself hother hphase hstays hnodup ?_ ?_ ?_
      · intro j hij
        rw [hperm.mem_iff, List.mem_cons]
        exact ⟨.inr, fun hj ↦ hj.resolve_left (Ne.symm hij)⟩
      · exact fun hi ↦ absurd hi hout
      · exact .inl (Semaphore.queue_release _)
    · apply Semaphore.Sound.release
      change l.permits.Sound cap ((l.pending ++ l.running.erase i).length + 1)
      rw [← List.length_cons, ← hperm.length_eq]
      exact hl.permits
    · intro j
      change j ∈ l.permits.release.waiters ↔ ∃ work', (l.calls.modify i Call.settle)[j]? = _
      rw [Semaphore.mem_waiters_release, hl.waiting]
      by_cases hij : i = j
      · subst hij
        rw [hself, hcall]
        constructor
        · rintro ⟨_, ⟨⟩⟩
          exact absurd rfl hbusy
        · rintro ⟨_, ⟨⟩⟩
          rcases hphase with hphase | hphase <;> cases hphase
      · rw [hother j hij]
  next => cases h

section Cancelled

variable {work : Option β} {phase : Phase β} (hl : l.Sound cap)
  (hcall : l.calls[i]? = some ⟨work, phase⟩)
include hcall

theorem calls_cancelled : (l.calls.set i ⟨work, .cancelled⟩)[i]? = some ⟨work, .cancelled⟩ := by
  simp [lt_of_call hcall]

include hl

/-- A call that waits leaves the semaphore. -/
theorem Sound.leave :
    ({ l with permits := l.permits.forget i, calls := l.calls.set i ⟨work, .cancelled⟩ } :
      Counted β).Sound cap := by
  have hother (j : ℕ) (hj : i ≠ j) : (l.calls.set i ⟨work, .cancelled⟩)[j]? = l.calls[j]? :=
    List.getElem?_set_ne hj
  constructor
  · refine hl.toKept.change hcall (calls_cancelled hcall) hother (.inl rfl) (fun _ ↦ rfl) hl.nodup
      ?_ ?_ ?_
    · exact fun _ _ ↦ Iff.rfl
    · exact fun _ ↦ rfl
    · exact (l.permits.queue_forget i).imp_right fun hqueue ↦ ⟨rfl, .inl hqueue⟩
  · exact hl.permits.forget i
  · intro j
    change j ∈ (l.permits.forget i).waiters ↔ ∃ work', (l.calls.set i _)[j]? = _
    rw [hl.permits.mem_forget, hl.waiting]
    by_cases hij : i = j
    · subst hij
      simp [calls_cancelled hcall]
    · simp [hother j hij, Ne.symm hij]

/-- The work of a call that is cut off goes on. -/
theorem Sound.abandon (hphase : phase = .joining) :
    ({ l with calls := l.calls.set i ⟨work, .cancelled⟩ } : Counted β).Sound cap := by
  have hother (j : ℕ) (hj : i ≠ j) : (l.calls.set i ⟨work, .cancelled⟩)[j]? = l.calls[j]? :=
    List.getElem?_set_ne hj
  constructor
  · refine hl.toKept.change hcall (calls_cancelled hcall) hother (.inl rfl) (fun _ ↦ rfl) hl.nodup
      ?_ ?_ ?_
    · exact fun _ _ ↦ Iff.rfl
    · exact fun _ ↦ rfl
    · exact .inr ⟨rfl, .inr rfl⟩
  · exact hl.permits
  · intro j
    rw [hl.waiting]
    by_cases hij : i = j
    · subst hij
      rw [calls_cancelled hcall, hcall, hphase]
      simp
    · simp [hother j hij]

end Cancelled

theorem Sound.step (hl : l.Sound cap) {a : Action β} (h : l.perform countedPermits a = some l') :
    l'.Sound cap := by
  cases a with
  | runLimited work => exact hl.runLimited h
  | wake i => exact hl.wake h
  | begin i => exact hl.begin h
  | finish i => exact hl.finish h
  | cancel i =>
      simp only [perform] at h
      split at h
      next hcall => exact Option.some.inj h ▸ hl.leave hcall
      next hcall => exact Option.some.inj h ▸ hl.abandon hcall rfl
      next => cases h

/-- How many steps are left until all work has ended. -/
def remaining (l : Counted β) : ℕ :=
  3 * l.permits.waiters.length + 2 * l.pending.length + l.running.length

theorem Sound.remaining_le (hl : l.Sound cap) : l.remaining ≤ 3 * l.calls.length := by
  have hnodup : (l.permits.waiters ++ l.tasks).Nodup := by
    refine List.nodup_append.mpr ⟨hl.permits.nodup, hl.nodup, ?_⟩
    rintro i hi _ hj rfl
    obtain ⟨work, hwaiting⟩ := (hl.waiting i).mp hi
    obtain ⟨work', h | h⟩ := hl.owned i hj <;> cases hwaiting.symm.trans h
  have hsubset : l.permits.waiters ++ l.tasks ⊆ List.range l.calls.length := by
    intro i hi
    rw [List.mem_range]
    rcases List.mem_append.mp hi with hi | hi
    · obtain ⟨work, h⟩ := (hl.waiting i).mp hi
      exact lt_of_call h
    · obtain ⟨work, h | h⟩ := hl.owned i hi <;> exact lt_of_call h
  have hlength := (List.subperm_of_subset hnodup hsubset).length_le
  simp only [List.length_append, List.length_range, tasks] at hlength
  unfold remaining
  omega

/-! ## What can be seen of other semaphores -/

variable {P : Type} {ops : Permits ℕ P} {view : P → Semaphore ℕ}

/-- What goes on, with what can be seen of the semaphore in its place. -/
def seen (view : P → Semaphore ℕ) (l : Limited P β) : Counted β :=
  ⟨view l.permits, l.calls, l.pending, l.running⟩

/-- Every action does to what is seen what it does to a semaphore that counts. -/
theorem seen_perform (hops : ops.Fair maxPermits view) (l : Limited P β) (a : Action β) :
    (l.perform ops a).map (seen view) = (l.seen view).perform countedPermits a := by
  cases a with
  | runLimited work =>
      have hacquire := hops.acquire l.permits
      cases hpermits : ops.acquire? l.permits with
      | none =>
          have hcounted : (view l.permits).acquire? = none := by rw [← hacquire, hpermits]; rfl
          simp [perform, hpermits, seen, hcounted, hops.wait]
      | some permits =>
          have hcounted : (view l.permits).acquire? = some (view permits) := by
            rw [← hacquire, hpermits]
            rfl
          simp [perform, hpermits, seen, hcounted, spawn]
  | wake i =>
      simp only [perform, seen, ← hops.takeUp, Option.map_map]
      rfl
  | begin i => by_cases hi : i ∈ l.pending <;> simp [perform, seen, hi]
  | finish i => by_cases hi : i ∈ l.running <;> simp [perform, seen, hi, hops.release]
  | cancel i =>
      cases hcall : l.calls[i]? with
      | none => simp [perform, seen, hcall]
      | some call =>
          obtain ⟨work, phase⟩ := call
          cases phase <;> simp [perform, seen, hcall, hops.forget]

end Limited

namespace Hashing

variable {P β : Type} {ops : Permits ℕ P} {view : P → Semaphore ℕ} {s s' : Hashing P β}
  {l l' : Limited P β} {h h' : List (Hashing P β × Action β)}

theorem works_congr {calls calls' : List (Call β)}
    (hsame : ∀ j : ℕ, calls'[j]?.map Call.work = calls[j]?.map Call.work) :
    calls'.map Call.work = calls.map Call.work :=
  List.ext_getElem? fun j ↦ by rw [List.getElem?_map, List.getElem?_map, hsame]

theorem works_modify (calls : List (Call β)) (i : ℕ) {f : Call β → Call β}
    (hf : ∀ call, (f call).work = call.work) :
    (calls.modify i f).map Call.work = calls.map Call.work := by
  refine works_congr fun j ↦ ?_
  rw [List.getElem?_modify]
  cases calls[j]? with
  | none => rfl
  | some call => by_cases hij : i = j <;> simp [hij, hf]

theorem works_spawn (l : Limited P β) (i : ℕ) :
    (l.spawn i).calls.map Call.work = l.calls.map Call.work :=
  works_modify l.calls i fun _ ↦ rfl

theorem works_cancelled {calls : List (Call β)} {i : ℕ} {work : Option β} {phase : Phase β}
    (hcall : calls[i]? = some ⟨work, phase⟩) :
    (calls.set i ⟨work, .cancelled⟩).map Call.work = calls.map Call.work := by
  refine works_congr fun j ↦ ?_
  by_cases hij : i = j
  · subst hij
    rw [List.getElem?_set_self (Limited.lt_of_call hcall), hcall]
    rfl
  · rw [List.getElem?_set_ne hij]

theorem works_settle (call : Call β) : call.settle.work = call.work := by
  unfold Call.settle
  split <;> rfl

/-- What a call is to do never changes. -/
theorem works_perform {a : Limited.Action β} (hp : l.perform ops a = some l') :
    l'.calls.map Call.work = l.calls.map Call.work ++ (Action.hash a).works := by
  cases a with
  | runLimited work =>
      simp only [Limited.perform] at hp
      split at hp
      · rw [← Option.some.inj hp]
        exact (works_spawn _ _).trans List.map_append
      · rw [← Option.some.inj hp]
        exact List.map_append
  | wake i =>
      obtain ⟨permits, -, rfl⟩ := Option.map_eq_some_iff.mp hp
      exact (works_spawn _ _).trans (List.append_nil _).symm
  | begin i =>
      simp only [Limited.perform] at hp
      split at hp
      · rw [← Option.some.inj hp]
        exact (List.append_nil _).symm
      · cases hp
  | finish i =>
      simp only [Limited.perform] at hp
      split at hp
      · rw [← Option.some.inj hp]
        exact (works_modify l.calls i works_settle).trans (List.append_nil _).symm
      · cases hp
  | cancel i =>
      simp only [Limited.perform] at hp
      split at hp
      next hcall =>
        rw [← Option.some.inj hp]
        exact (works_cancelled hcall).trans (List.append_nil _).symm
      next hcall =>
        rw [← Option.some.inj hp]
        exact (works_cancelled hcall).trans (List.append_nil _).symm
      next => cases hp

/-- The state behind `PERMITS` fits what happened so far. -/
def Fits (view : P → Semaphore ℕ) (h : List (Hashing P β × Action β)) : Hashing P β → Prop
  | none => capOf h = none ∧ worksOf h = []
  | some l => ∃ cap, capOf h = some cap ∧ 0 < cap ∧ (l.seen view).Sound cap ∧
      l.calls.map Call.work = worksOf h

/-- Every run, whatever the calls are and whenever they are cut off. -/
abbrev Traced (ops : Permits ℕ P) (h : List (Hashing P β × Action β)) (s : Hashing P β) : Prop :=
  (system ops β).Trace (fun _ _ _ ↦ True) none h s

theorem default_le : defaultMaxConcurrentHashes ≤ maxPermits := by decide

section Steps

variable (hops : ops.Fair maxPermits view)
include hops

/-- Who needs the permits finds those of the cap, or sets it. -/
theorem fits_orElse {cap : ℕ} (hf : Fits view h s) (hpos : 0 < cap)
    (hl : (s.orElse fun _ ↦ (ops.new cap).map .new) = some l) : ∃ cap',
      ((capOf h).orElse fun _ ↦ if cap ≤ maxPermits then some cap else none) = some cap' ∧
        0 < cap' ∧ (l.seen view).Sound cap' ∧ l.calls.map Call.work = worksOf h := by
  cases s with
  | some l₀ =>
      obtain rfl : l₀ = l := Option.some.inj hl
      obtain ⟨cap', hcap, hrest⟩ := hf
      exact ⟨cap', by simp [hcap], hrest⟩
  | none =>
      obtain ⟨hcap, hnone⟩ := hf
      obtain ⟨p, hnew, rfl⟩ := Option.map_eq_some_iff.mp hl
      have hle : cap ≤ maxPermits := by
        by_contra hlt
        rw [hops.new_of_lt cap (Nat.not_le.mp hlt)] at hnew
        cases hnew
      have hview : view p = .new cap := by
        have hseen := hops.new_of_le cap hle
        rw [hnew] at hseen
        exact Option.some.inj hseen
      refine ⟨cap, by simp [hcap, hle], hpos, ?_, by simp [hnone, Limited.new]⟩
      rw [Limited.seen, Limited.new, hview]
      exact Limited.sound_new cap

/-- A cap above what a semaphore takes is not set. -/
theorem fits_refused {cap : ℕ} (hf : Fits view h s)
    (hl : (s.orElse fun _ ↦ (ops.new cap).map (.new : P → Limited P β)) = none) :
    capOf h = none ∧ worksOf h = [] ∧ ¬cap ≤ maxPermits := by
  cases s with
  | some l₀ => cases hl
  | none =>
      refine ⟨hf.1, hf.2, fun hle ↦ ?_⟩
      have hnew := hops.new_of_le cap hle
      rw [Option.map_eq_none_iff.mp hl] at hnew
      cases hnew

theorem Traced.fits (ht : Traced ops h s) : Fits view h s := by
  refine ht.invariant ⟨rfl, rfl⟩ fun h s a s' _ _ hp hf ↦ ?_
  cases a with
  | setMaxConcurrentHashes cap =>
      rw [← Option.some.inj hp]
      cases hs : s.orElse fun _ ↦ (ops.new (max cap 1)).map .new with
      | none =>
          obtain ⟨hcap, hnone, hlt⟩ := fits_refused hops hf hs
          exact ⟨by simp only [capOf, hcap, Action.sets, if_neg hlt]; rfl,
            by simp [worksOf, hnone, Action.works]⟩
      | some l =>
          obtain ⟨cap', hcap, hpos, hsound, hworks⟩ := fits_orElse hops hf (by omega) hs
          exact ⟨cap', hcap, hpos, hsound, by simp [worksOf, hworks, Action.works]⟩
  | availablePermits =>
      obtain ⟨l, hs, rfl⟩ := Option.map_eq_some_iff.mp hp
      obtain ⟨cap', hcap, hpos, hsound, hworks⟩ := fits_orElse hops hf (by decide) hs
      rw [if_pos default_le] at hcap
      exact ⟨cap', hcap, hpos, hsound, by simp [worksOf, hworks, Action.works]⟩
  | hash a =>
      obtain ⟨l', hbind, rfl⟩ := Option.map_eq_some_iff.mp hp
      obtain ⟨l, hs, hperform⟩ := Option.bind_eq_some_iff.mp hbind
      obtain ⟨cap', hcap, hpos, hsound, hworks⟩ := fits_orElse hops hf (by decide) hs
      rw [if_pos default_le] at hcap
      have hseen := l.seen_perform hops a
      rw [hperform] at hseen
      refine ⟨cap', hcap, hpos, hsound.step hseen.symm, ?_⟩
      rw [works_perform hperform, hworks, worksOf]

end Steps

/-- The first cap that is set holds for good: with every permit accounted for, no more hashes are
at work than that, whoever was cut off in the meantime; the answers are those of the work, and no
call overtakes another that waits. -/
theorem hashes_limited (hops : ops.Fair maxPermits view) (ht : Traced ops h (some l)) :
    ∃ cap, capOf h = some cap ∧ 0 < cap ∧
      (view l.permits).free + (view l.permits).granted.length + l.tasks.length = cap ∧
        l.calls.map Call.work = worksOf h ∧
          (∀ call ∈ l.calls, ∀ answer, call.phase = .answered answer → answer = call.outcome) ∧
            ∀ i ∈ (view l.permits).queue, ∀ j, i < j → ∀ call, l.calls[j]? = some call →
              j ∈ (view l.permits).queue ∨ call.phase = .cancelled := by
  obtain ⟨cap, hcap, hpos, hsound, hworks⟩ := ht.fits hops
  refine ⟨cap, hcap, hpos, hsound.permits.balance, hworks, ?_, hsound.inOrder⟩
  rintro ⟨work, phase⟩ hcall answer rfl
  obtain ⟨i, hi⟩ := List.mem_iff_getElem?.mp hcall
  exact hsound.answers i work answer hi

/-- A step takes the work that was begun further. -/
theorem remaining_step {l l' : Limited.Counted β} {a : Limited.Action β}
    (ha : (Action.hash a).goesOn = true) (hp : l.perform countedPermits a = some l') :
    l'.remaining + 1 = l.remaining := by
  cases a with
  | wake i =>
      obtain ⟨permits, htake, rfl⟩ := Option.map_eq_some_iff.mp hp
      obtain ⟨hi, rfl⟩ := Semaphore.takeUp?_eq_some htake
      have hpos := List.length_pos_of_mem hi
      simp only [Limited.remaining, Limited.spawn, Semaphore.waiters, List.length_append,
        List.length_cons, List.length_erase_of_mem hi]
      omega
  | begin i =>
      simp only [Limited.perform] at hp
      split at hp
      next hi =>
        have hpos := List.length_pos_of_mem hi
        rw [← Option.some.inj hp]
        simp only [Limited.remaining, List.length_cons, List.length_erase_of_mem hi]
        omega
      next => cases hp
  | finish i =>
      simp only [Limited.perform] at hp
      split at hp
      next hi =>
        have hpos := List.length_pos_of_mem hi
        rw [← Option.some.inj hp]
        simp only [Limited.remaining, List.length_erase_of_mem hi,
          (Semaphore.waiters_release_perm l.permits).length_eq]
        omega
      next => cases hp
  | runLimited | cancel => cases ha

theorem goesOn_eq {a : Action β} (ha : a.goesOn = true) : ∃ b, a = .hash b := by
  cases a with
  | hash b => exact ⟨b, rfl⟩
  | setMaxConcurrentHashes | availablePermits => cases ha

/-- Where nothing can go on, every call has its answer or was cut off. -/
theorem settled_of_stuck {l : Limited.Counted β} {cap : ℕ} (hl : l.Sound cap) (hpos : 0 < cap)
    (hidle : ∀ a : Limited.Action β, (Action.hash a).goesOn = true →
      l.perform countedPermits a = none) :
    ∀ call ∈ l.calls, call.phase = .cancelled ∨ call.phase = .answered call.outcome := by
  have hgranted : l.permits.granted = [] := by
    refine List.eq_nil_iff_forall_not_mem.mpr fun i hi ↦ ?_
    have hnone := hidle (.wake i) rfl
    simp [Limited.perform, Semaphore.takeUp?, hi] at hnone
  have htasks : l.tasks = [] := by
    refine List.eq_nil_iff_forall_not_mem.mpr fun i hi ↦ ?_
    rcases List.mem_append.mp hi with hi | hi
    · have hnone := hidle (.begin i) rfl
      simp [Limited.perform, hi] at hnone
    · have hnone := hidle (.finish i) rfl
      simp [Limited.perform, hi] at hnone
  have hwaiters : l.permits.waiters = [] := by
    apply Semaphore.Sound.waiters_eq_nil _ hpos hgranted
    simpa [htasks] using hl.permits
  rintro ⟨work, phase⟩ hcall
  obtain ⟨i, hi⟩ := List.mem_iff_getElem?.mp hcall
  cases phase with
  | waiting =>
      have hmem := (hl.waiting i).mpr ⟨work, hi⟩
      simp [hwaiters] at hmem
  | joining =>
      have hmem := hl.joining i work hi
      simp [htasks] at hmem
  | answered answer => exact .inr (congrArg _ (hl.answers i work answer hi))
  | cancelled => exact .inl rfl

/-- No call waits forever: from any state on, what was begun goes on for at most three steps a
call, and where it can go no further each call that was not cut off has the answer of its work. -/
theorem hashes_complete (hops : ops.Fair maxPermits view) (ht : Traced ops h (some l))
    (hrest : (system ops β).Trace (fun _ a _ ↦ a.goesOn = true) (some l) h' s') :
    ∃ l', s' = some l' ∧ h'.length ≤ 3 * l.calls.length ∧
      ((∀ a : Action β, a.goesOn = true → (system ops β).perform s' a = none) →
        ∀ call ∈ l'.calls, call.phase = .cancelled ∨ call.phase = .answered call.outcome) := by
  obtain ⟨cap, -, hpos, hsound, -⟩ := ht.fits hops
  let remaining (l : Limited P β) : ℕ := (l.seen view).remaining
  obtain ⟨l', rfl, hsound', hremaining⟩ : ∃ l', s' = some l' ∧ (l'.seen view).Sound cap ∧
      h'.length + remaining l' = remaining l := by
    refine hrest.invariant (I := fun h' s' ↦ ∃ l', s' = some l' ∧ (l'.seen view).Sound cap ∧
      h'.length + remaining l' = remaining l) ⟨l, rfl, hsound, Nat.zero_add _⟩ ?_
    rintro h' _ a s' _ ha hp ⟨l', rfl, hl', hremaining⟩
    obtain ⟨b, rfl⟩ := goesOn_eq ha
    obtain ⟨l'', hperform, rfl⟩ := Option.map_eq_some_iff.mp hp
    have hseen := l'.seen_perform hops b
    rw [show l'.perform ops b = some l'' from hperform] at hseen
    have hstep : remaining l'' + 1 = remaining l' := remaining_step ha hseen.symm
    exact ⟨l'', rfl, hl'.step hseen.symm, by rw [List.length_cons]; omega⟩
  have hle : remaining l ≤ 3 * l.calls.length := hsound.remaining_le
  refine ⟨l', rfl, by omega, fun hstuck ↦ settled_of_stuck hsound' hpos fun a ha ↦ ?_⟩
  rw [← l'.seen_perform hops a, Option.map_eq_none_iff]
  exact Option.map_eq_none_iff.mp (hstuck (.hash a) ha)

/-! ## A run to look at -/

/-- The cap is one, and the first of two callers is cut off while its work is running. -/
def cutOff : List (Action String) :=
  [.setMaxConcurrentHashes 1, .hash (.runLimited (some "first")),
    .hash (.runLimited (some "second")), .hash (.begin 0), .hash (.cancel 0)]

/-- The work of the first goes on, and the second waits for its permit. -/
def afterCutOff : Limited.Counted String where
  permits := ⟨0, [1], []⟩
  calls := [⟨some "first", .cancelled⟩, ⟨some "second", .waiting⟩]
  pending := []
  running := [0]

theorem cutOff_traced : ∃ h, Traced countedPermits h (some afterCutOff) := by
  obtain ⟨⟨h, s⟩, ht, htest⟩ : ∃ r : List (Hashing (Semaphore ℕ) String × Action String) ×
      Hashing (Semaphore ℕ) String, Traced countedPermits r.1 r.2 ∧
        decide (r.2 = some afterCutOff) = true :=
    System.Trace.of_schedule cutOff (fun r ↦ decide (r.2 = some afterCutOff)) (by decide)
  exact ⟨h, of_decide_eq_true htest ▸ ht⟩

theorem hashes_limited_cutOff : ∃ h, Traced countedPermits h (some afterCutOff) ∧
    ∃ cap, capOf h = some cap ∧ 0 < cap ∧
      afterCutOff.permits.free + afterCutOff.permits.granted.length + afterCutOff.tasks.length =
        cap ∧
      afterCutOff.calls.map Call.work = worksOf h ∧
      (∀ call ∈ afterCutOff.calls, ∀ answer, call.phase = .answered answer →
        answer = call.outcome) ∧
      ∀ i ∈ afterCutOff.permits.queue, ∀ j, i < j → ∀ call, afterCutOff.calls[j]? = some call →
        j ∈ afterCutOff.permits.queue ∨ call.phase = .cancelled := by
  obtain ⟨h, ht⟩ := cutOff_traced
  exact ⟨h, ht, hashes_limited (Semaphore.fair_permits maxPermits) ht⟩

/-- The first ends, and the second is served. -/
def served : List (Action String) :=
  [.hash (.finish 0), .hash (.wake 1), .hash (.begin 1), .hash (.finish 1)]

theorem hashes_complete_cutOff : ∃ h' s' l', (system countedPermits String).Trace
    (fun _ a _ ↦ a.goesOn = true) (some afterCutOff) h' s' ∧ s' = some l' ∧
      h'.length ≤ 3 * afterCutOff.calls.length ∧
        ((∀ a : Action String, a.goesOn = true →
          (system countedPermits String).perform s' a = none) →
            ∀ call ∈ l'.calls, call.phase = .cancelled ∨ call.phase = .answered call.outcome) := by
  obtain ⟨h, ht⟩ := cutOff_traced
  obtain ⟨⟨h', s'⟩, hrest, -⟩ : ∃ r : List (Hashing (Semaphore ℕ) String × Action String) ×
      Hashing (Semaphore ℕ) String, (system countedPermits String).Trace
        (fun _ a _ ↦ a.goesOn = true) (some afterCutOff) r.1 r.2 ∧ Option.isSome r.2 = true :=
    System.Trace.of_schedule served (fun r ↦ Option.isSome r.2) (by decide)
  obtain ⟨l', hl'⟩ := hashes_complete (Semaphore.fair_permits maxPermits) ht hrest
  exact ⟨h', s', l', hrest, hl'⟩

end Hashing

end ApiStarter
