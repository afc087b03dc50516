import ApiStarter.ClientIp
import ApiStarter.Limits.FixedWindow
import Mathlib.Algebra.Group.Nat.Defs

/-!
# The rate limiter

Clients are tracked by address, and once many are tracked the stale entries are
dropped, in the middle of somebody's request.  An entry that is dropped is one
that its client's next request would have replaced, so nobody can tell.
-/

namespace ApiStarter

open Relational Limits

namespace RateLimiter

def new (maxRequests : UInt32) (window : ℕ) (trustProxy : Bool) : RateLimiter where
  maxRequests := maxRequests
  window := window
  trustProxy := trustProxy
  hits := .empty

/-- What the calls of `allow` answer, one after the other. -/
def decisions : RateLimiter → List (IpAddr × ℕ) → List Bool
  | _, [] => []
  | limiter, (client, now) :: calls =>
      (limiter.allow client now).1 :: decisions (limiter.allow client now).2 calls

/-- When the client's calls are allowed. -/
def allowedTo (limiter : RateLimiter) (client : IpAddr) (calls : List (IpAddr × ℕ)) : List ℕ :=
  letThrough client calls (limiter.decisions calls)

end RateLimiter

/-- No client makes `2 ^ 32` calls in one window. -/
def Uncrowded (length : ℕ) (calls : List (IpAddr × ℕ)) : Prop :=
  ∀ pre post client w, calls = pre ++ post → after length (fun _ ↦ none) pre client = some w →
    w.count < 2 ^ 32

/-- Every window is remembered that is not over, its count aside. -/
structure Remembers (length now : ℕ) (hits : Table Hits.client) (state : IpAddr → Option Window) :
    Prop where
  opened : ∀ hit ∈ hits, ∃ w, state hit.client = some w ∧ w.started = hit.started
  forgotten : ∀ client, (∀ hit ∈ hits, hit.client ≠ client) → Opens length now (state client)

/-- Every window is tracked that is not over. -/
structure Tracks (length now : ℕ) (hits : Table Hits.client) (state : IpAddr → Option Window) :
    Prop where
  tracked : ∀ hit ∈ hits, state hit.client = some ⟨hit.started, hit.count.toNat⟩
  untracked : ∀ client, (∀ hit ∈ hits, hit.client ≠ client) → Opens length now (state client)

namespace RateLimiter

/-- What is tracked once the stale entries are dropped, when there are many. -/
def retained (limiter : RateLimiter) (now : ℕ) : Table Hits.client :=
  if maxTrackedClients ≤ limiter.hits.rows.length then
    limiter.hits.deleteWhere fun hit ↦ !decide (now - hit.started < limiter.window)
  else limiter.hits

/-- The entry that a call counts. -/
def counted (limiter : RateLimiter) (client : IpAddr) (now : ℕ) : Hits :=
  let entry := ((limiter.retained now).get? client).getD ⟨client, now, 0⟩
  if limiter.window ≤ now - entry.started then ⟨client, now, 0⟩ else entry

theorem allow_hits (limiter : RateLimiter) (client : IpAddr) (now : ℕ) :
    (limiter.allow client now).2.hits =
      (limiter.retained now).put { limiter.counted client now with
        count := (limiter.counted client now).count + 1 } := rfl

theorem mem_retained {limiter : RateLimiter} {now : ℕ} {hit : Hits}
    (h : hit ∈ limiter.retained now) : hit ∈ limiter.hits := by
  unfold retained at h
  split at h
  · exact (Table.mem_deleteWhere.mp h).1
  · exact h

end RateLimiter

section Calls

variable {limiter : RateLimiter} {hits : Table Hits.client} {state : IpAddr → Option Window}
  {calls : List (IpAddr × ℕ)} {length now now' : ℕ} {client : IpAddr}

theorem Remembers.mono (h : Remembers length now hits state) (hle : now ≤ now') :
    Remembers length now' hits state where
  opened := h.opened
  forgotten client hclient := (h.forgotten client hclient).mono hle

/-- Dropping the entries that are stale forgets no window that is not over. -/
theorem Remembers.retained (h : Remembers limiter.window now limiter.hits state) :
    Remembers limiter.window now (limiter.retained now) state where
  opened hit hhit := h.opened hit (RateLimiter.mem_retained hhit)
  forgotten client hclient := by
    by_cases htracked : ∀ hit ∈ limiter.hits, hit.client ≠ client
    · exact h.forgotten client htracked
    · push Not at htracked
      obtain ⟨hit, hhit, rfl⟩ := htracked
      obtain ⟨w₀, hw₀, hstarted⟩ := h.opened hit hhit
      intro w hw
      rw [hw₀] at hw
      obtain rfl := Option.some.inj hw
      by_contra hfresh
      apply hclient hit _ rfl
      unfold RateLimiter.retained
      split
      · apply Table.mem_deleteWhere.mpr ⟨hhit, _⟩
        simpa [← hstarted] using hfresh
      · exact hhit

/-- The entry that a call counts is the client's, and began when the reference's window did. -/
theorem Remembers.counted (h : Remembers limiter.window now limiter.hits state) :
    (limiter.counted client now).client = client ∧
      (limiter.counted client now).started =
        (Window.hit limiter.window now (state client)).started := by
  unfold RateLimiter.counted
  cases hget : (limiter.retained now).get? client with
  | none =>
      have hopens := h.retained.forgotten client (Table.get?_eq_none_iff.mp hget)
      rw [Window.hit_of_opens hopens]
      simp
  | some hit =>
      obtain ⟨hmem, rfl⟩ := Table.get?_eq_some_iff.mp hget
      obtain ⟨w, hw, hstarted⟩ := h.retained.opened hit hmem
      rw [hw, Option.getD_some, Window.hit, hstarted]
      dsimp only
      split
      · exact ⟨rfl, rfl⟩
      · exact ⟨rfl, rfl⟩

theorem Remembers.allow (h : Remembers limiter.window now limiter.hits state) :
    Remembers limiter.window now (limiter.allow client now).2.hits
      (step limiter.window state (client, now)) := by
  obtain ⟨hclient, hstarted⟩ := h.counted
  rw [RateLimiter.allow_hits]
  constructor
  · intro hit hmem
    rcases Table.mem_put.mp hmem with rfl | ⟨hmem, hother⟩
    · refine ⟨_, ?_, hstarted.symm⟩
      exact (congrArg _ hclient).trans (step_self state client now)
    · have hne : hit.client ≠ client := fun hsame ↦ hother (hsame.trans hclient.symm)
      rw [step_of_ne hne now]
      exact h.retained.opened hit hmem
  · intro client' huntracked
    have hne : client' ≠ client := by
      rintro rfl
      exact huntracked _ (Table.mem_put.mpr (.inl rfl)) hclient
    rw [step_of_ne hne]
    apply h.retained.forgotten client'
    intro hit hmem hsame
    apply huntracked hit (Table.mem_put.mpr (.inr ⟨hmem, _⟩)) hsame
    exact fun hkey ↦ hne (hsame.symm.trans (hkey.trans hclient))

theorem remembers_empty (length now : ℕ) : Remembers length now .empty fun _ ↦ none where
  opened hit hhit := by cases hhit
  forgotten client _ w hw := by cases hw

theorem Tracks.remembers (h : Tracks length now hits state) :
    Remembers length now hits state where
  opened hit hhit := ⟨_, h.tracked hit hhit, rfl⟩
  forgotten := h.untracked

theorem Tracks.mono (h : Tracks length now hits state) (hle : now ≤ now') :
    Tracks length now' hits state where
  tracked := h.tracked
  untracked := (h.remembers.mono hle).forgotten

/-- The entry that a call counts is the reference's window. -/
theorem Tracks.counted (h : Tracks limiter.window now limiter.hits state)
    (hfew : (Window.hit limiter.window now (state client)).count < 2 ^ 32) :
    Window.hit limiter.window now (state client) =
      ⟨(limiter.counted client now).started, ((limiter.counted client now).count + 1).toNat⟩ := by
  unfold RateLimiter.counted
  cases hget : (limiter.retained now).get? client with
  | none =>
      have hopens := h.remembers.retained.forgotten client (Table.get?_eq_none_iff.mp hget)
      rw [Window.hit_of_opens hopens]
      simp
  | some hit =>
      obtain ⟨hmem, rfl⟩ := Table.get?_eq_some_iff.mp hget
      have hstate := h.tracked hit (RateLimiter.mem_retained hmem)
      rw [Option.getD_some]
      rw [hstate] at hfew ⊢
      by_cases hover : limiter.window ≤ now - hit.started
      · rw [if_pos hover]
        exact if_pos hover
      · rw [if_neg hover]
        have hsame : Window.hit limiter.window now (some ⟨hit.started, hit.count.toNat⟩) =
            ⟨hit.started, hit.count.toNat + 1⟩ := if_neg hover
        rw [hsame] at hfew ⊢
        rw [UInt32.toNat_add, Nat.mod_eq_of_lt (by simpa using hfew)]
        rfl

/-- A call decides as the reference does. -/
theorem Tracks.allow (h : Tracks limiter.window now limiter.hits state)
    (hfew : (Window.hit limiter.window now (state client)).count < 2 ^ 32) :
    (limiter.allow client now).1 = decide ((Window.hit limiter.window now (state client)).count ≤
        limiter.maxRequests.toNat) ∧
      Tracks limiter.window now (limiter.allow client now).2.hits
        (step limiter.window state (client, now)) := by
  have hhit := h.counted hfew
  have hclient : (limiter.counted client now).client = client := h.remembers.counted.1
  refine ⟨?_, ?_, h.remembers.allow.forgotten⟩
  · rw [hhit]
    exact decide_eq_decide.mpr UInt32.le_iff_toNat_le
  · intro hit hmem
    rw [RateLimiter.allow_hits] at hmem
    rcases Table.mem_put.mp hmem with rfl | ⟨hmem, hother⟩
    · exact (congrArg _ hclient).trans ((step_self state client now).trans (congrArg some hhit))
    · have hne : hit.client ≠ client := fun hsame ↦ hother (hsame.trans hclient.symm)
      rw [step_of_ne hne now]
      exact h.tracked hit (RateLimiter.mem_retained hmem)

/-- The limiter decides as the reference does. -/
theorem Tracks.decisions (h : Tracks limiter.window now limiter.hits state)
    (hsorted : (calls.map Prod.snd).Pairwise (· ≤ ·)) (hnow : ∀ call ∈ calls, now ≤ call.2)
    (hfew : ∀ pre post client w, calls = pre ++ post →
      after limiter.window state pre client = some w → w.count < 2 ^ 32) :
    limiter.decisions calls =
      Limits.decisions limiter.maxRequests.toNat limiter.window state calls := by
  induction calls generalizing limiter state now with
  | nil => rfl
  | cons call calls ih =>
      obtain ⟨client, instant⟩ := call
      obtain ⟨hfirst, hrest⟩ := List.pairwise_cons.mp hsorted
      have hhere := h.mono (hnow (client, instant) List.mem_cons_self)
      obtain ⟨hsame, hnext⟩ := hhere.allow
        (hfew [(client, instant)] calls client _ rfl (step_self state client instant))
      have htail := @ih (limiter.allow client instant).2 _ _ hnext hrest
        (fun call hcall ↦ hfirst call.2 (List.mem_map_of_mem hcall))
        fun pre post client' w hsplit ↦
          hfew ((client, instant) :: pre) post client' w (by rw [hsplit, List.cons_append])
      rw [RateLimiter.decisions, hsame, htail]
      rfl

theorem tracks_empty (length now : ℕ) : Tracks length now .empty fun _ ↦ none where
  tracked hit hhit := by cases hhit
  untracked client _ w hw := by cases hw

theorem Uncrowded.filter (h : Uncrowded length calls) (client : IpAddr) :
    Uncrowded length (calls.filter fun call ↦ decide (call.1 = client)) := by
  intro pre post client' w hsplit hw
  obtain ⟨pre', post', rfl, rfl, -⟩ := List.filter_eq_append_iff.mp hsplit
  rw [after_apply, instantsOf_filter] at hw
  split at hw
  · exact h pre' post' client' w rfl ((after_apply ..).trans hw)
  · cases hw

theorem uncrowded_of_length (h : calls.length < 2 ^ 32) : Uncrowded length calls := by
  rintro pre post client w rfl hw
  rw [after_apply] at hw
  have hcount : w.count ≤ 0 + (instantsOf client pre).length := count_afterOwn_le (by simp) hw
  have hinstants : (instantsOf client pre).length ≤ pre.length := by
    rw [instantsOf, List.length_map]
    exact List.length_filter_le _ _
  rw [List.length_append] at h
  omega

end Calls

/-- The limiter decides as if it kept an independent window for every client and dropped none. -/
theorem limiter_exact {maxRequests : UInt32} {window : ℕ} {trustProxy : Bool}
    {limiter : RateLimiter} {calls : List (IpAddr × ℕ)}
    (hlimiter : limiter = .new maxRequests window trustProxy)
    (hsorted : (calls.map Prod.snd).Pairwise (· ≤ ·)) (hfew : Uncrowded window calls) :
    limiter.decisions calls = decisions maxRequests.toNat window (fun _ ↦ none) calls ∧
      ∀ client,
        toldTo client calls (limiter.decisions calls) =
          limiter.decisions (calls.filter fun call ↦ decide (call.1 = client)) ∧
        (∀ pre t post, calls = pre ++ (client, t) :: post →
          Opens window t (after window (fun _ ↦ none) pre client) →
            (limiter.allowedTo client calls).countP (fun x ↦ decide (t ≤ x ∧ x < t + window)) ≤
              maxRequests.toNat) ∧
        (∀ lo hi, hi ≤ lo + window →
          (limiter.allowedTo client calls).countP (fun x ↦ decide (lo ≤ x ∧ x < hi)) ≤
            2 * maxRequests.toNat) ∧
        (0 < window → ∀ lo hi, hi ≤ lo + window →
          (limiter.allowedTo client calls).countP (fun x ↦ decide (lo ≤ x ∧ x ≤ hi)) ≤
            2 * maxRequests.toNat) := by
  subst hlimiter
  have hexact {calls : List (IpAddr × ℕ)} (hsorted : (calls.map Prod.snd).Pairwise (· ≤ ·))
      (hfew : Uncrowded window calls) :
      (RateLimiter.new maxRequests window trustProxy).decisions calls =
        decisions maxRequests.toNat window (fun _ ↦ none) calls :=
    (tracks_empty window 0).decisions hsorted (fun _ _ ↦ Nat.zero_le _) hfew
  refine ⟨hexact hsorted hfew, fun client ↦ ?_⟩
  have hown : (instantsOf client calls).Pairwise (· ≤ ·) :=
    hsorted.sublist (List.filter_sublist.map Prod.snd)
  have hallowed : (RateLimiter.new maxRequests window trustProxy).allowedTo client calls =
      admitted maxRequests.toNat window none (instantsOf client calls) := by
    rw [RateLimiter.allowedTo, hexact hsorted hfew, letThrough_decisions]
  have hinterval (hwindow : 0 < window) (lo hi : ℕ) (hhi : hi ≤ lo + window) :
      ((RateLimiter.new maxRequests window trustProxy).allowedTo client calls).countP
        (fun x ↦ decide (lo ≤ x ∧ x ≤ hi)) ≤ 2 * maxRequests.toNat := by
    rw [hallowed]
    exact admitted_interval _ hwindow hown (by simp) hhi
  refine ⟨?_, ?_, ?_, hinterval⟩
  · have hfiltered := hsorted.sublist
      ((List.filter_sublist (p := fun call ↦ decide (call.1 = client)) (l := calls)).map Prod.snd)
    rw [hexact hsorted hfew, hexact hfiltered (hfew.filter client), toldTo_decisions]
  · rintro pre t post rfl hopens
    rw [hallowed]
    have hsplit : instantsOf client (pre ++ (client, t) :: post) =
        instantsOf client pre ++ t :: instantsOf client post := by
      simp [instantsOf]
    rw [hsplit] at hown ⊢
    rw [after_apply] at hopens
    exact admitted_window _ hown hopens
  · intro lo hi hhi
    by_cases hwindow : 0 < window
    · refine Nat.le_trans (List.countP_mono_left fun x _ hx ↦ ?_) (hinterval hwindow lo hi hhi)
      simp only [decide_eq_true_eq] at hx ⊢
      omega
    · have hnone : ((RateLimiter.new maxRequests window trustProxy).allowedTo client calls).countP
          (fun x ↦ decide (lo ≤ x ∧ x < hi)) = 0 :=
        List.countP_eq_zero.mpr fun x _ ↦ by simp only [decide_eq_true_eq]; omega
      omega

end ApiStarter
