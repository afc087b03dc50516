import Mathlib.Data.List.Nodup
import Mathlib.Order.Basic

/-!
# Counting semaphores

Permits are given out in the order they are asked for.  Who asks while there is
none waits in a queue.  A permit that is given back goes to the first in the
queue, where there is one, and stays assigned to it until it is taken up; who
stops waiting leaves the queue, or gives back what was assigned to it.  Another
implementation is fair if it does the same on what can be seen of it.
-/

namespace Limits

structure Semaphore (ι : Type) where
  free : ℕ
  queue : List ι
  /-- Those who were assigned a permit and have not taken it up. -/
  granted : List ι
  deriving DecidableEq

namespace Semaphore

variable {ι : Type}

def new (permits : ℕ) : Semaphore ι := ⟨permits, [], []⟩

def acquire? (s : Semaphore ι) : Option (Semaphore ι) :=
  if s.free = 0 then none else some { s with free := s.free - 1 }

def wait (s : Semaphore ι) (i : ι) : Semaphore ι := { s with queue := s.queue ++ [i] }

def release (s : Semaphore ι) : Semaphore ι :=
  match s.queue with
  | [] => { s with free := s.free + 1 }
  | i :: rest => { s with queue := rest, granted := i :: s.granted }

/-- Those who have asked for a permit and do not hold one. -/
def waiters (s : Semaphore ι) : List ι := s.granted ++ s.queue

/-- Of `permits` permits, `held` are in the hands of others. -/
structure Sound (permits held : ℕ) (s : Semaphore ι) : Prop where
  balance : s.free + s.granted.length + held = permits
  /-- Nobody waits while a permit is free. -/
  eager : 0 < s.free → s.queue = []
  nodup : s.waiters.Nodup

variable {permits held : ℕ} {s s' : Semaphore ι} {i j : ι}

theorem sound_new (permits : ℕ) : (new permits : Semaphore ι).Sound permits 0 where
  balance := by simp [new]
  eager _ := rfl
  nodup := List.nodup_nil

theorem acquire?_eq_some (h : s.acquire? = some s') :
    0 < s.free ∧ s' = { s with free := s.free - 1 } := by
  unfold acquire? at h
  split at h
  · cases h
  next hfree => exact ⟨Nat.pos_of_ne_zero hfree, (Option.some.inj h).symm⟩

theorem acquire?_eq_none : s.acquire? = none ↔ s.free = 0 := by
  simp [acquire?]

@[simp] theorem mem_waiters : j ∈ s.waiters ↔ j ∈ s.granted ∨ j ∈ s.queue := List.mem_append

@[simp] theorem mem_waiters_wait : j ∈ (s.wait i).waiters ↔ j ∈ s.waiters ∨ j = i := by
  simp [wait, or_assoc]

/-- A permit that is given back changes nothing about who waits. -/
theorem waiters_release_perm (s : Semaphore ι) : s.release.waiters.Perm s.waiters := by
  unfold release
  split
  next hqueue => simp [waiters, hqueue]
  next i rest hqueue =>
    rw [waiters, waiters, hqueue, List.cons_append]
    exact List.perm_middle.symm

@[simp] theorem mem_waiters_release : j ∈ s.release.waiters ↔ j ∈ s.waiters :=
  (waiters_release_perm s).mem_iff

theorem queue_release (s : Semaphore ι) : s.release.queue = s.queue.tail := by
  unfold release
  split
  next hqueue => simp [hqueue]
  next hqueue => simp [hqueue]

theorem Sound.acquire (hs : s.Sound permits held) (h : s.acquire? = some s') :
    s'.Sound permits (held + 1) := by
  obtain ⟨hfree, rfl⟩ := acquire?_eq_some h
  have hbalance := hs.balance
  exact ⟨by simp only; omega, fun _ ↦ hs.eager hfree, hs.nodup⟩

theorem Sound.wait (hs : s.Sound permits held) (hfree : s.free = 0) (hi : i ∉ s.waiters) :
    (s.wait i).Sound permits held where
  balance := hs.balance
  eager hpos := by simp [Semaphore.wait, hfree] at hpos
  nodup := by
    rw [waiters, Semaphore.wait, ← List.append_assoc]
    exact List.nodup_append.mpr ⟨hs.nodup, List.nodup_singleton i, by
      rintro j hj _ hij rfl
      exact hi (List.mem_singleton.mp hij ▸ hj)⟩

theorem Sound.release (hs : s.Sound permits (held + 1)) : s.release.Sound permits held := by
  refine ⟨?_, ?_, (waiters_release_perm s).nodup_iff.mpr hs.nodup⟩
  · have hbalance := hs.balance
    unfold Semaphore.release
    split
    · simp only
      omega
    · simp only [List.length_cons]
      omega
  · unfold Semaphore.release
    split
    next hqueue => exact fun _ ↦ hqueue
    next hqueue =>
      intro hpos
      simp [hs.eager hpos] at hqueue

/-- Where every permit is back and none is assigned, nobody waits. -/
theorem Sound.waiters_eq_nil (hs : s.Sound permits 0) (hpos : 0 < permits)
    (hgranted : s.granted = []) : s.waiters = [] := by
  have hbalance := hs.balance
  rw [hgranted] at hbalance
  rw [waiters, hgranted, hs.eager (by simp at hbalance; omega)]
  rfl

/-! ## Permits that were assigned -/

variable [DecidableEq ι]

def takeUp? (s : Semaphore ι) (i : ι) : Option (Semaphore ι) :=
  if i ∈ s.granted then some { s with granted := s.granted.erase i } else none

/-- `i` no longer waits. -/
def forget (s : Semaphore ι) (i : ι) : Semaphore ι :=
  if i ∈ s.granted then ({ s with granted := s.granted.erase i } : Semaphore ι).release
  else { s with queue := s.queue.erase i }

theorem takeUp?_eq_some (h : s.takeUp? i = some s') :
    i ∈ s.granted ∧ s' = { s with granted := s.granted.erase i } := by
  unfold takeUp? at h
  split at h
  next hi => exact ⟨hi, (Option.some.inj h).symm⟩
  · cases h

theorem Sound.takeUp (hs : s.Sound permits held) (h : s.takeUp? i = some s') :
    s'.Sound permits (held + 1) := by
  obtain ⟨hi, rfl⟩ := takeUp?_eq_some h
  have hbalance := hs.balance
  have hpos := List.length_pos_of_mem hi
  refine ⟨?_, hs.eager, ?_⟩
  · simp only [List.length_erase_of_mem hi]
    omega
  · exact hs.nodup.sublist (List.Sublist.append_right List.erase_sublist _)

theorem Sound.mem_takeUp (hs : s.Sound permits held) (h : s.takeUp? i = some s') :
    j ∈ s'.waiters ↔ j ≠ i ∧ j ∈ s.waiters := by
  obtain ⟨hi, rfl⟩ := takeUp?_eq_some h
  have hnodup := List.nodup_append.mp hs.nodup
  have hqueue : j ∈ s.queue → j ≠ i := fun hj hij ↦ hnodup.2.2 i hi j hj hij.symm
  simp only [mem_waiters, hnodup.1.mem_erase_iff]
  constructor
  · rintro (⟨hne, hj⟩ | hj)
    · exact ⟨hne, .inl hj⟩
    · exact ⟨hqueue hj, .inr hj⟩
  · rintro ⟨hne, hj | hj⟩
    · exact .inl ⟨hne, hj⟩
    · exact .inr hj

theorem queue_forget (s : Semaphore ι) (i : ι) :
    (s.forget i).queue = s.queue.tail ∨ (s.forget i).queue = s.queue.erase i := by
  unfold Semaphore.forget
  split
  · exact .inl (queue_release _)
  · exact .inr rfl

theorem Sound.forget (hs : s.Sound permits held) (i : ι) : (s.forget i).Sound permits held := by
  unfold Semaphore.forget
  split
  next hi =>
    have htaken : s.takeUp? i = some { s with granted := s.granted.erase i } := if_pos hi
    exact (hs.takeUp htaken).release
  next hi =>
    refine ⟨hs.balance, fun hpos ↦ by simp [hs.eager hpos], ?_⟩
    exact hs.nodup.sublist (List.Sublist.append_left List.erase_sublist _)

theorem Sound.mem_forget (hs : s.Sound permits held) :
    j ∈ (s.forget i).waiters ↔ j ≠ i ∧ j ∈ s.waiters := by
  unfold Semaphore.forget
  split
  next hi =>
    have htaken : s.takeUp? i = some { s with granted := s.granted.erase i } := if_pos hi
    rw [mem_waiters_release, hs.mem_takeUp htaken]
  next hi =>
    have hnodup := List.nodup_append.mp hs.nodup
    simp only [mem_waiters, hnodup.2.1.mem_erase_iff]
    constructor
    · rintro (hj | ⟨hne, hj⟩)
      · exact ⟨fun hij ↦ hi (hij ▸ hj), .inl hj⟩
      · exact ⟨hne, .inr hj⟩
    · rintro ⟨hne, hj | hj⟩
      · exact .inl hj
      · exact .inr ⟨hne, hj⟩

end Semaphore

/-! ## Implementations -/

/-- The operations of a semaphore whose states are of type `P`. -/
structure Permits (ι P : Type) where
  /-- `none` where so many permits are refused. -/
  new : ℕ → Option P
  acquire? : P → Option P
  wait : P → ι → P
  release : P → P
  takeUp? : P → ι → Option P
  forget : P → ι → P

/-- Seen through `view`, permits are given out in the order they are asked for, up to `most`. -/
structure Permits.Fair {ι P : Type} [DecidableEq ι] (ops : Permits ι P) (most : ℕ)
    (view : P → Semaphore ι) : Prop where
  new_of_le : ∀ n ≤ most, (ops.new n).map view = some (.new n)
  new_of_lt : ∀ n, most < n → ops.new n = none
  /-- A permit that is free is taken at once. -/
  acquire : ∀ p, (ops.acquire? p).map view = (view p).acquire?
  /-- Who has to wait comes last. -/
  wait : ∀ p i, view (ops.wait p i) = (view p).wait i
  /-- A permit that is given back is assigned to the first who waits, or free. -/
  release : ∀ p, view (ops.release p) = (view p).release
  /-- Who was assigned a permit takes it up. -/
  takeUp : ∀ p i, (ops.takeUp? p i).map view = (view p).takeUp? i
  /-- Who stops waiting loses its place, and gives back what it was assigned. -/
  forget : ∀ p i, view (ops.forget p i) = (view p).forget i

namespace Semaphore

variable {ι : Type} [DecidableEq ι]

abbrev permits (most : ℕ) : Permits ι (Semaphore ι) where
  new n := if n ≤ most then some (.new n) else none
  acquire? := acquire?
  wait := wait
  release := release
  takeUp? := takeUp?
  forget := forget

theorem fair_permits (most : ℕ) : (permits most : Permits ι (Semaphore ι)).Fair most id where
  new_of_le n h := by simp [h]
  new_of_lt n h := if_neg (Nat.not_le.mpr h)
  acquire _ := Option.map_id_apply
  wait _ _ := rfl
  release _ := rfl
  takeUp _ _ := Option.map_id_apply
  forget _ _ := rfl

end Semaphore

end Limits
