import ApiStarter.RateLimiter
import Mathlib.Data.List.Dedup

/-!
# How many clients the rate limiter tracks

Stale entries are dropped when the cap is reached, and the new client is added
whether any was dropped or not.  The cap holds exactly when no client calls
while as many others as the cap allows have windows that are not over.
-/

namespace ApiStarter

open Relational Limits

namespace RateLimiter

def trackedClients (limiter : RateLimiter) : ℕ := limiter.hits.rows.length

/-- The limiter after the calls of `allow`. -/
def allowAll (limiter : RateLimiter) (calls : List (IpAddr × ℕ)) : RateLimiter :=
  calls.foldl (fun limiter call ↦ (limiter.allow call.1 call.2).2) limiter

theorem allowAll_append (limiter : RateLimiter) (calls calls' : List (IpAddr × ℕ)) :
    limiter.allowAll (calls ++ calls') = (limiter.allowAll calls).allowAll calls' :=
  List.foldl_append

theorem window_allowAll (limiter : RateLimiter) (calls : List (IpAddr × ℕ)) :
    (limiter.allowAll calls).window = limiter.window := by
  induction calls generalizing limiter with
  | nil => rfl
  | cons call calls ih => exact ih (limiter.allow call.1 call.2).2

end RateLimiter

instance (length now : ℕ) (o : Option Window) : Decidable (Opens length now o) :=
  match o with
  | none => isTrue fun _ hw ↦ by cases hw
  | some w => decidable_of_iff (length ≤ now - w.started)
      ⟨fun hover _ hw ↦ Option.some.inj hw ▸ hover, fun hopens ↦ hopens w rfl⟩

/-- The other clients that have called and whose windows are not over at `now`. -/
def rivals (length : ℕ) (pre : List (IpAddr × ℕ)) (client : IpAddr) (now : ℕ) : List IpAddr :=
  (pre.map Prod.fst).dedup.filter fun other ↦
    decide (other ≠ client ∧ ¬Opens length now (after length (fun _ ↦ none) pre other))

/-- Whoever calls, fewer others than the cap have windows that are not over. -/
def Uncongested (length : ℕ) (calls : List (IpAddr × ℕ)) : Prop :=
  ∀ pre client now post, calls = pre ++ (client, now) :: post →
    (rivals length pre client now).length < maxTrackedClients

section Calls

variable {limiter : RateLimiter} {calls pre post : List (IpAddr × ℕ)} {length now : ℕ}
  {client other : IpAddr}

theorem mem_rivals : other ∈ rivals length pre client now ↔
    other ∈ pre.map Prod.fst ∧ other ≠ client ∧
      ¬Opens length now (after length (fun _ ↦ none) pre other) := by
  rw [rivals, List.mem_filter, List.mem_dedup, decide_eq_true_eq]

theorem nodup_rivals (length : ℕ) (pre : List (IpAddr × ℕ)) (client : IpAddr) (now : ℕ) :
    (client :: rivals length pre client now).Nodup := by
  apply List.nodup_cons.mpr
  constructor
  · intro hmem
    exact (mem_rivals.mp hmem).2.1 rfl
  · exact (List.nodup_dedup _).filter _

/-- Only a client that has called has a window. -/
theorem mem_of_after {w : Window} (hw : after length (fun _ ↦ none) pre client = some w) :
    client ∈ pre.map Prod.fst := by
  rw [after_apply] at hw
  by_contra hnever
  have hnone : instantsOf client pre = [] := by
    rw [instantsOf, List.map_eq_nil_iff, List.filter_eq_nil_iff]
    intro call hcall hsame
    exact hnever (of_decide_eq_true hsame ▸ List.mem_map_of_mem hcall)
  rw [hnone] at hw
  cases hw

/-- A client that has called has a window. -/
theorem exists_after (length : ℕ) (hmem : client ∈ pre.map Prod.fst) :
    ∃ w, after length (fun _ ↦ none) pre client = some w := by
  induction pre using List.reverseRecOn with
  | nil => cases hmem
  | append_singleton pre call ih =>
      obtain ⟨caller, instant⟩ := call
      rw [after, List.foldl_append]
      by_cases hsame : client = caller
      · rw [hsame]
        exact ⟨_, step_self _ caller instant⟩
      · have hbefore : client ∈ pre.map Prod.fst := by simpa [hsame] using hmem
        obtain ⟨w, hw⟩ := ih hbefore
        exact ⟨w, (step_of_ne hsame instant).trans hw⟩

/-- Through all calls the limiter remembers the windows that are not over. -/
theorem remembers_allowAll (hsorted : (pre.map Prod.snd).Pairwise (· ≤ ·))
    (hnow : ∀ call ∈ pre, call.2 ≤ now) (hempty : limiter.hits = .empty) :
    Remembers limiter.window now (limiter.allowAll pre).hits
      (after limiter.window (fun _ ↦ none) pre) := by
  induction pre using List.reverseRecOn generalizing now with
  | nil =>
      rw [RateLimiter.allowAll, List.foldl_nil, hempty]
      exact remembers_empty _ _
  | append_singleton pre call ih =>
      obtain ⟨client, instant⟩ := call
      rw [List.map_append, List.pairwise_append] at hsorted
      have hbefore : ∀ call ∈ pre, call.2 ≤ instant := fun call hcall ↦
        hsorted.2.2 call.2 (List.mem_map_of_mem hcall) instant List.mem_cons_self
      have hpre := ih hsorted.1 hbefore
      rw [← limiter.window_allowAll pre] at hpre
      have hstep := @Remembers.allow _ _ _ client hpre
      rw [RateLimiter.allowAll_append]
      have hafter : after limiter.window (fun _ ↦ none) (pre ++ [(client, instant)]) =
          step limiter.window (after limiter.window (fun _ ↦ none) pre) (client, instant) :=
        List.foldl_append
      rw [hafter]
      rw [limiter.window_allowAll pre] at hstep
      exact hstep.mono (hnow (client, instant) (by simp))

/-- Whoever has a window that is not over is tracked, and so is the caller. -/
theorem length_rivals_lt (h : Remembers limiter.window now limiter.hits
    (after limiter.window (fun _ ↦ none) pre)) :
    (rivals limiter.window pre client now).length <
      (limiter.allow client now).2.trackedClients := by
  have hnext := @Remembers.allow _ _ _ client h
  apply Table.length_le_of_keys (nodup_rivals limiter.window pre client now)
  intro other hother
  rcases List.mem_cons.mp hother with rfl | hother
  · rw [RateLimiter.allow_hits]
    exact ⟨_, Table.mem_put.mpr (.inl rfl), h.counted.1⟩
  · obtain ⟨-, hne, hopen⟩ := mem_rivals.mp hother
    by_contra huntracked
    push Not at huntracked
    have hopens := hnext.forgotten other huntracked
    rw [step_of_ne hne] at hopens
    exact hopen hopens

/-- Nobody rivals a client that calls when every window is over. -/
theorem rivals_eq_nil (hover : ∀ call ∈ pre, call.2 + length ≤ now) :
    rivals length pre client now = [] := by
  apply List.eq_nil_iff_forall_not_mem.mpr
  intro other hother
  obtain ⟨hmem, -, hopen⟩ := mem_rivals.mp hother
  apply hopen
  intro w hw
  rw [after_apply] at hw
  have hinstants : ∀ x ∈ instantsOf other pre, x ≤ now - length := by
    intro x hx
    obtain ⟨call, hcall, rfl⟩ := List.mem_map.mp hx
    have hcalled := hover call (List.mem_of_mem_filter hcall)
    omega
  have hstarted : w.started ≤ now - length := started_afterOwn_le (by simp) hinstants hw
  obtain ⟨call, hcall, -⟩ := List.mem_map.mp hmem
  have hcalled := hover call hcall
  omega

/-- Once the cap is reached a call leaves the caller and those whose windows are not over. -/
theorem trackedClients_allow_full (hfull : maxTrackedClients ≤ limiter.hits.rows.length)
    (h : Remembers limiter.window now limiter.hits (after limiter.window (fun _ ↦ none) pre)) :
    (limiter.allow client now).2.trackedClients ≤
      (rivals limiter.window pre client now).length + 1 := by
  have hkept : ∀ hit ∈ (limiter.allow client now).2.hits,
      hit.client ∈ client :: rivals limiter.window pre client now := by
    intro hit hhit
    rw [RateLimiter.allow_hits] at hhit
    rcases Table.mem_put.mp hhit with rfl | ⟨hhit, hother⟩
    · exact List.mem_cons.mpr (.inl h.counted.1)
    · rw [RateLimiter.retained, if_pos hfull] at hhit
      obtain ⟨hmem, hfresh⟩ := Table.mem_deleteWhere.mp hhit
      obtain ⟨w, hw, hstarted⟩ := h.opened hit hmem
      have hne : hit.client ≠ client := fun hsame ↦ hother (hsame.trans h.counted.1.symm)
      have hopen : ¬Opens limiter.window now
          (after limiter.window (fun _ ↦ none) pre hit.client) := by
        intro hopens
        have hover := hopens w hw
        rw [hstarted] at hover
        simp only [Bool.not_eq_false', decide_eq_true_eq] at hfresh
        omega
      exact List.mem_cons_of_mem _ (mem_rivals.mpr ⟨mem_of_after hw, hne, hopen⟩)
  exact Table.length_le_of_mem hkept

theorem trackedClients_allow_le (h : Remembers limiter.window now limiter.hits
    (after limiter.window (fun _ ↦ none) pre)) :
    (limiter.allow client now).2.trackedClients ≤
      max maxTrackedClients ((rivals limiter.window pre client now).length + 1) := by
  by_cases hfull : maxTrackedClients ≤ limiter.hits.rows.length
  · exact Nat.le_trans (trackedClients_allow_full hfull h) (Nat.le_max_right _ _)
  · apply Nat.le_trans _ (Nat.le_max_left _ _)
    have hretained : limiter.retained now = limiter.hits := if_neg hfull
    have hput : (limiter.allow client now).2.trackedClients ≤ limiter.hits.rows.length + 1 := by
      rw [RateLimiter.trackedClients, RateLimiter.allow_hits, hretained]
      exact Nat.succ_le_succ (List.length_filter_le _ _)
    omega

theorem uncongested_of_length (h : calls.length ≤ maxTrackedClients) :
    Uncongested length calls := by
  intro pre client now post hsplit
  have hrivals : (rivals length pre client now).length ≤ pre.length := by
    apply Nat.le_trans (List.length_filter_le _ _)
    simpa using (List.dedup_sublist (pre.map Prod.fst)).length_le
  rw [hsplit, List.length_append, List.length_cons] at h
  omega

/-- Clients that call at the first instant are all tracked. -/
theorem length_le_trackedClients (hwindow : 0 < limiter.window) (hempty : limiter.hits = .empty)
    {clients : List IpAddr} (hclients : clients.Nodup) :
    clients.length ≤ (limiter.allowAll (clients.map fun client ↦ (client, 0))).trackedClients := by
  have hsorted : ((clients.map fun client ↦ (client, 0)).map Prod.snd).Pairwise (· ≤ ·) := by
    rw [List.map_map]
    exact List.Pairwise.map _ (fun _ _ _ ↦ Nat.le_refl 0) hclients
  have hinstants : ∀ call ∈ clients.map fun client ↦ (client, 0), call.2 ≤ 0 := by simp
  have hremembers := remembers_allowAll hsorted hinstants hempty
  apply Table.length_le_of_keys hclients
  intro client hclient
  by_contra huntracked
  push Not at huntracked
  have hcalled : client ∈ (clients.map fun client ↦ (client, 0)).map Prod.fst := by
    simpa using hclient
  obtain ⟨w, hw⟩ := exists_after limiter.window hcalled
  have hover := hremembers.forgotten client huntracked w hw
  omega

end Calls

/-- The cap on the tracked clients holds throughout exactly when no client calls while as many
others as the cap have windows that are not over. -/
theorem tracked_within_cap_iff {maxRequests : UInt32} {window : ℕ} {trustProxy : Bool}
    {limiter : RateLimiter} {calls : List (IpAddr × ℕ)}
    (hlimiter : limiter = .new maxRequests window trustProxy)
    (hsorted : (calls.map Prod.snd).Pairwise (· ≤ ·)) :
    (∀ pre post, calls = pre ++ post →
      (limiter.allowAll pre).trackedClients ≤ maxTrackedClients) ↔ Uncongested window calls := by
  have hwindow : limiter.window = window := by rw [hlimiter]; rfl
  have hempty : limiter.hits = .empty := by rw [hlimiter]; rfl
  -- at each call the limiter remembers what came before it
  have hremembers {pre : List (IpAddr × ℕ)} {client : IpAddr} {now : ℕ}
      {post : List (IpAddr × ℕ)} (hsplit : calls = pre ++ (client, now) :: post) :
      Remembers (limiter.allowAll pre).window now (limiter.allowAll pre).hits
        (after (limiter.allowAll pre).window (fun _ ↦ none) pre) := by
    rw [hsplit, List.map_append, List.map_cons, List.pairwise_append] at hsorted
    rw [limiter.window_allowAll pre]
    apply remembers_allowAll hsorted.1 _ hempty
    exact fun call hcall ↦
      hsorted.2.2 call.2 (List.mem_map_of_mem hcall) now List.mem_cons_self
  constructor
  · intro hcap pre client now post hsplit
    have hlt := @length_rivals_lt _ _ _ client (hremembers hsplit)
    rw [limiter.window_allowAll pre, hwindow] at hlt
    have hnext := hcap (pre ++ [(client, now)]) post (by simp [hsplit])
    rw [RateLimiter.allowAll_append] at hnext
    exact Nat.lt_of_lt_of_le hlt hnext
  · intro hfew pre post hsplit
    cases pre using List.reverseRecOn with
    | nil =>
        rw [RateLimiter.allowAll, List.foldl_nil, RateLimiter.trackedClients, hempty]
        exact Nat.zero_le _
    | append_singleton pre call =>
        obtain ⟨client, now⟩ := call
        have hsplit' : calls = pre ++ (client, now) :: post := by simp [hsplit]
        have hle := @trackedClients_allow_le _ _ _ client (hremembers hsplit')
        have hrivals := hfew pre client now post hsplit'
        rw [limiter.window_allowAll pre, hwindow] at hle
        rw [RateLimiter.allowAll_append]
        exact Nat.le_trans hle (max_le (Nat.le_refl _) hrivals)

namespace LimiterSample

def minute : ℕ := 60000000000

def limiter : RateLimiter := .new 2 minute false

def client : IpAddr := .v4 #v[10, 0, 0, 1]

def other : IpAddr := .v4 #v[10, 0, 0, 2]

def calls : List (IpAddr × ℕ) :=
  [(client, 0), (client, 0), (client, 0), (other, 0), (client, minute + 1)]

end LimiterSample

theorem tracked_within_cap_sample :
    (∀ pre post, LimiterSample.calls = pre ++ post →
      (LimiterSample.limiter.allowAll pre).trackedClients ≤ maxTrackedClients) ∧
        Uncongested LimiterSample.minute LimiterSample.calls := by
  have hfew : Uncongested LimiterSample.minute LimiterSample.calls :=
    uncongested_of_length (by decide)
  have hsorted : (LimiterSample.calls.map Prod.snd).Pairwise (· ≤ ·) := by decide
  exact ⟨(@tracked_within_cap_iff 2 _ false LimiterSample.limiter _ rfl hsorted).mpr hfew, hfew⟩

namespace BurstSample

/-- The addresses from 10.0.0.0 on. -/
def address (i : ℕ) : IpAddr := .v4 #v[10, 0, (i / 256).toUInt8, i.toUInt8]

/-- One more client than the cap allows, each calling once at the first instant. -/
def burst : List (IpAddr × ℕ) :=
  ((List.range (maxTrackedClients + 1)).map address).map fun client ↦ (client, 0)

theorem nodup_addresses : ((List.range (maxTrackedClients + 1)).map address).Nodup := by
  apply List.Nodup.map_on _ List.nodup_range
  intro i hi j hj hij
  rw [List.mem_range, maxTrackedClients] at hi hj
  have hoctets : (i / 256).toUInt8 = (j / 256).toUInt8 ∧ i.toUInt8 = j.toUInt8 := by
    simpa [address] using hij
  have hhigh := congrArg UInt8.toNat hoctets.1
  have hlow := congrArg UInt8.toNat hoctets.2
  simp only [Nat.toUInt8, UInt8.toNat_ofNat'] at hhigh hlow
  omega

theorem sorted_burst : (burst.map Prod.snd).Pairwise (· ≤ ·) := by
  rw [burst, List.map_map]
  exact List.Pairwise.map _ (fun _ _ _ ↦ Nat.le_refl 0) nodup_addresses

theorem crowded_burst :
    maxTrackedClients < (LimiterSample.limiter.allowAll burst).trackedClients := by
  have hwindow : 0 < LimiterSample.limiter.window := by decide
  have hall := length_le_trackedClients hwindow rfl nodup_addresses
  rw [List.length_map, List.length_range] at hall
  exact hall

/-- A minute after the burst its first client calls again, and another one calls. -/
def afterwards : List (IpAddr × ℕ) :=
  burst ++ [(address 0, LimiterSample.minute), (LimiterSample.other, LimiterSample.minute)]

theorem evicted_afterwards {client : IpAddr} :
    (LimiterSample.limiter.allowAll (burst ++ [(client, LimiterSample.minute)])).trackedClients ≤
      1 := by
  have hinstants : ∀ call ∈ burst, call.2 + LimiterSample.minute ≤ LimiterSample.minute := by
    simp [burst]
  have hremembers : Remembers (LimiterSample.limiter.allowAll burst).window LimiterSample.minute
      (LimiterSample.limiter.allowAll burst).hits
        (after (LimiterSample.limiter.allowAll burst).window (fun _ ↦ none) burst) := by
    rw [RateLimiter.window_allowAll]
    exact remembers_allowAll sorted_burst (fun call hcall ↦ by have := hinstants call hcall; omega)
      rfl
  have hle := @trackedClients_allow_full _ _ _ client (Nat.le_of_lt crowded_burst) hremembers
  have hnone : rivals LimiterSample.limiter.window burst client LimiterSample.minute = [] :=
    rivals_eq_nil hinstants
  rw [RateLimiter.window_allowAll, hnone] at hle
  rw [RateLimiter.allowAll_append]
  exact hle

end BurstSample

theorem tracked_above_cap :
    (BurstSample.burst.map Prod.snd).Pairwise (· ≤ ·) ∧
      maxTrackedClients < (LimiterSample.limiter.allowAll BurstSample.burst).trackedClients :=
  ⟨BurstSample.sorted_burst, BurstSample.crowded_burst⟩

/-- The first call after the burst drops all that is tracked, and nobody can tell. -/
theorem limiter_exact_evicting :
    maxTrackedClients < (LimiterSample.limiter.allowAll BurstSample.burst).trackedClients ∧
      (LimiterSample.limiter.allowAll
        (BurstSample.burst ++ [(BurstSample.address 0, LimiterSample.minute)])).trackedClients ≤ 1 ∧
      LimiterSample.limiter.decisions BurstSample.afterwards =
        decisions 2 LimiterSample.minute (fun _ ↦ none) BurstSample.afterwards := by
  refine ⟨BurstSample.crowded_burst, BurstSample.evicted_afterwards, ?_⟩
  have hsorted : (BurstSample.afterwards.map Prod.snd).Pairwise (· ≤ ·) := by
    rw [BurstSample.afterwards, List.map_append, List.pairwise_append]
    refine ⟨BurstSample.sorted_burst, by simp, ?_⟩
    intro t ht t' ht'
    simp [BurstSample.burst] at ht
    omega
  have hlength : BurstSample.afterwards.length < 2 ^ 32 := by
    simp [BurstSample.afterwards, BurstSample.burst, maxTrackedClients]
  exact (@limiter_exact 2 LimiterSample.minute false _ BurstSample.afterwards rfl hsorted
    (uncrowded_of_length hlength)).1

end ApiStarter
