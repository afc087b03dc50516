import Mathlib.Data.List.Basic
import Mathlib.Logic.Function.Basic
import Mathlib.Order.Basic

/-!
# Fixed-window limiters

A client's first request opens a window.  Every later request falls into the
window that is open or, when that is over, opens the next one; in each window a
client's first few requests are let through.  Clients have nothing to do with
each other.
-/

namespace Limits

/-- A window opened at `started`, and how many requests fell into it so far. -/
structure Window where
  started : ℕ
  count : ℕ
  deriving DecidableEq

/-- The window that a request at `now` falls into, the request counted. -/
def Window.hit (length now : ℕ) : Option Window → Window
  | none => ⟨now, 1⟩
  | some w => if length ≤ now - w.started then ⟨now, 1⟩ else ⟨w.started, w.count + 1⟩

/-- A request at `now` opens a window. -/
def Opens (length now : ℕ) (o : Option Window) : Prop := ∀ w ∈ o, length ≤ now - w.started

variable {limit length now : ℕ} {o : Option Window} {w : Window}

theorem Opens.mono {now' : ℕ} (h : Opens length now o) (hle : now ≤ now') :
    Opens length now' o := by
  intro w hw
  have hover := h w hw
  omega

theorem Window.hit_of_opens (h : Opens length now o) : hit length now o = ⟨now, 1⟩ := by
  cases o with
  | none => rfl
  | some w => exact if_pos (h w rfl)

theorem Window.hit_of_open (h : now - w.started < length) :
    hit length now (some w) = ⟨w.started, w.count + 1⟩ := if_neg (by omega)

/-- A request falls into a window that is not over. -/
theorem Window.hit_open (length : ℕ) (o : Option Window) (now : ℕ) :
    now - (hit length now o).started < length ∨ length = 0 := by
  cases o with
  | none => simp only [hit]; omega
  | some w =>
      simp only [hit]
      split
      · dsimp only
        omega
      · dsimp only
        omega

theorem Window.hit_started_le (ho : ∀ w ∈ o, w.started ≤ now) :
    (hit length now o).started ≤ now := by
  cases o with
  | none => exact Nat.le_refl _
  | some w =>
      simp only [hit]
      split
      · exact Nat.le_refl _
      · exact ho w rfl

/-! ## One client -/

/-- The instants at which the client is let through. -/
def admitted (limit length : ℕ) : Option Window → List ℕ → List ℕ
  | _, [] => []
  | o, now :: rest =>
      if (Window.hit length now o).count ≤ limit then
        now :: admitted limit length (some (Window.hit length now o)) rest
      else admitted limit length (some (Window.hit length now o)) rest

def afterOwn (length : ℕ) (o : Option Window) (instants : List ℕ) : Option Window :=
  instants.foldl (fun o now ↦ some (Window.hit length now o)) o

section Client

variable {instants : List ℕ}

theorem admitted_append (o : Option Window) (ts ts' : List ℕ) :
    admitted limit length o (ts ++ ts') =
      admitted limit length o ts ++ admitted limit length (afterOwn length o ts) ts' := by
  induction ts generalizing o with
  | nil => rfl
  | cons t ts ih =>
      simp only [List.cons_append, admitted, ih]
      split <;> rfl

theorem countP_admitted (p : ℕ → Bool) (o : Option Window) (t : ℕ) (ts : List ℕ) :
    (admitted limit length o (t :: ts)).countP p =
      (admitted limit length (some (Window.hit length t o)) ts).countP p +
        if (Window.hit length t o).count ≤ limit ∧ p t = true then 1 else 0 := by
  rw [admitted]
  split
  next hlet => simp [List.countP_cons, hlet]
  next hlet => simp [hlet]

theorem mem_of_admitted {t : ℕ} (h : t ∈ admitted limit length o instants) : t ∈ instants := by
  induction instants generalizing o with
  | nil => cases h
  | cons x ts ih =>
      rw [admitted] at h
      split at h
      · rcases List.mem_cons.mp h with rfl | h
        · exact List.mem_cons_self
        · exact List.mem_cons_of_mem _ (ih h)
      · exact List.mem_cons_of_mem _ (ih h)

/-- What the open window still lets through. -/
theorem admitted_open (limit length : ℕ) (hsorted : instants.Pairwise (· ≤ ·))
    (hafter : ∀ t ∈ instants, w.started ≤ t) :
    (admitted limit length (some w) instants).countP (fun t ↦ decide (t < w.started + length)) ≤
      limit - w.count := by
  induction instants generalizing w with
  | nil => exact Nat.zero_le _
  | cons t ts ih =>
      obtain ⟨hfirst, hrest⟩ := List.pairwise_cons.mp hsorted
      have ht := hafter t List.mem_cons_self
      by_cases hover : length ≤ t - w.started
      · -- the window is over, also for all that come later
        have hnone : (admitted limit length (some w) (t :: ts)).countP
            (fun x ↦ decide (x < w.started + length)) = 0 := by
          refine List.countP_eq_zero.mpr fun x hx ↦ ?_
          have hxt : t ≤ x := by
            rcases List.mem_cons.mp (mem_of_admitted hx) with rfl | hx
            · exact Nat.le_refl _
            · exact hfirst x hx
          simp only [decide_eq_true_eq]
          omega
        omega
      · have hih := ih hrest (w := ⟨w.started, w.count + 1⟩)
          fun x hx ↦ hafter x (List.mem_cons_of_mem _ hx)
        rw [countP_admitted, Window.hit_of_open (by omega)]
        dsimp only at hih ⊢
        split <;> omega

/-- What a window lets through that the first request opens. -/
theorem admitted_opened (limit : ℕ) {t : ℕ} (hopens : Opens length t o)
    (hsorted : (t :: instants).Pairwise (· ≤ ·)) :
    (admitted limit length o (t :: instants)).countP (fun x ↦ decide (x < t + length)) ≤ limit := by
  obtain ⟨hfirst, hrest⟩ := List.pairwise_cons.mp hsorted
  have hopen := admitted_open (w := ⟨t, 1⟩) limit length hrest hfirst
  rw [countP_admitted, Window.hit_of_opens hopens]
  dsimp only at hopen ⊢
  split <;> omega

/-- What the open window and the next let through. -/
theorem admitted_two (limit length : ℕ) (hsorted : instants.Pairwise (· ≤ ·))
    (hafter : ∀ t ∈ instants, w.started ≤ t) :
    (admitted limit length (some w) instants).countP
      (fun t ↦ decide (t < w.started + 2 * length)) ≤ (limit - w.count) + limit := by
  induction instants generalizing w with
  | nil => exact Nat.zero_le _
  | cons t ts ih =>
      obtain ⟨-, hrest⟩ := List.pairwise_cons.mp hsorted
      have ht := hafter t List.mem_cons_self
      by_cases hover : length ≤ t - w.started
      · have hopens : Opens length t (some w) := by
          intro w' hw'
          obtain rfl : w = w' := Option.some.inj hw'
          exact hover
        have hnext := admitted_opened limit hopens hsorted
        have hmono : (admitted limit length (some w) (t :: ts)).countP
            (fun x ↦ decide (x < w.started + 2 * length)) ≤
              (admitted limit length (some w) (t :: ts)).countP
                fun x ↦ decide (x < t + length) := by
          refine List.countP_mono_left fun x _ hx ↦ ?_
          simp only [decide_eq_true_eq] at hx ⊢
          omega
        omega
      · have hih := ih hrest (w := ⟨w.started, w.count + 1⟩)
          fun x hx ↦ hafter x (List.mem_cons_of_mem _ hx)
        rw [countP_admitted, Window.hit_of_open (by omega)]
        dsimp only at hih ⊢
        split <;> omega

/-- An interval as long as a window meets two windows at most. -/
theorem admitted_interval (limit : ℕ) (hlength : 0 < length) (hsorted : instants.Pairwise (· ≤ ·))
    (ho : ∀ w ∈ o, ∀ t ∈ instants, w.started ≤ t) {lo hi : ℕ} (hhi : hi ≤ lo + length) :
    (admitted limit length o instants).countP (fun t ↦ decide (lo ≤ t ∧ t ≤ hi)) ≤ 2 * limit := by
  induction instants generalizing o with
  | nil => exact Nat.zero_le _
  | cons t ts ih =>
      obtain ⟨hfirst, hrest⟩ := List.pairwise_cons.mp hsorted
      have hstarted : (Window.hit length t o).started ≤ t :=
        Window.hit_started_le fun w hw ↦ ho w hw t List.mem_cons_self
      have hafter : ∀ x ∈ ts, (Window.hit length t o).started ≤ x :=
        fun x hx ↦ Nat.le_trans hstarted (hfirst x hx)
      rw [countP_admitted]
      by_cases hlo : t < lo
      · have hih := ih (o := some (Window.hit length t o)) hrest fun w hw ↦ by
          obtain rfl := Option.some.inj hw
          exact hafter
        rw [if_neg (by simp only [decide_eq_true_eq]; omega)]
        exact hih
      · -- the window of this request ends after the interval began
        have hopen := Window.hit_open length o t
        have htwo := admitted_two (w := Window.hit length t o) limit length hrest hafter
        have hmono : (admitted limit length (some (Window.hit length t o)) ts).countP
            (fun x ↦ decide (lo ≤ x ∧ x ≤ hi)) ≤
              (admitted limit length (some (Window.hit length t o)) ts).countP
                fun x ↦ decide (x < (Window.hit length t o).started + 2 * length) := by
          refine List.countP_mono_left fun x _ hx ↦ ?_
          simp only [decide_eq_true_eq] at hx ⊢
          omega
        have hpos : 1 ≤ (Window.hit length t o).count := by
          unfold Window.hit
          split
          · exact Nat.le_refl _
          · split
            · exact Nat.le_refl _
            · exact Nat.succ_pos _
        split <;> omega

/-- Before a request that opens a window all requests came before it. -/
theorem lt_of_opens (hlength : 0 < length) {t : ℕ} (hsorted : (instants ++ [t]).Pairwise (· ≤ ·))
    (hopens : Opens length t (afterOwn length o instants)) : ∀ x ∈ instants, x < t := by
  induction instants generalizing o with
  | nil => simp
  | cons x ts ih =>
      obtain ⟨hfirst, hrest⟩ := List.pairwise_cons.mp hsorted
      have htail := ih (o := some (Window.hit length x o)) hrest hopens
      intro y hy
      rcases List.mem_cons.mp hy with rfl | hy
      · cases ts with
        | nil =>
            have hover := hopens _ rfl
            have hopen := Window.hit_open length o y
            omega
        | cons z ts =>
            exact Nat.lt_of_le_of_lt (hfirst z (by simp)) (htail z List.mem_cons_self)
      · exact htail y hy

/-- In a window a client is let through `limit` times at most. -/
theorem admitted_window (limit : ℕ) {pre post : List ℕ} {t : ℕ}
    (hsorted : (pre ++ t :: post).Pairwise (· ≤ ·))
    (hopens : Opens length t (afterOwn length o pre)) :
    (admitted limit length o (pre ++ t :: post)).countP
      (fun x ↦ decide (t ≤ x ∧ x < t + length)) ≤ limit := by
  by_cases hlength : length = 0
  · have hnone : (admitted limit length o (pre ++ t :: post)).countP
        (fun x ↦ decide (t ≤ x ∧ x < t + length)) = 0 :=
      List.countP_eq_zero.mpr fun x _ ↦ by simp only [decide_eq_true_eq]; omega
    omega
  have hpre : ∀ x ∈ pre, x < t := by
    refine lt_of_opens (by omega) ?_ hopens
    exact hsorted.sublist ((List.singleton_sublist.mpr List.mem_cons_self).append_left pre)
  have hnone : (admitted limit length o pre).countP
      (fun x ↦ decide (t ≤ x ∧ x < t + length)) = 0 := by
    refine List.countP_eq_zero.mpr fun x hx ↦ ?_
    have hx := hpre x (mem_of_admitted hx)
    simp only [decide_eq_true_eq]
    omega
  have hopened := admitted_opened limit hopens (List.pairwise_append.mp hsorted).2.1
  have hmono : (admitted limit length (afterOwn length o pre) (t :: post)).countP
      (fun x ↦ decide (t ≤ x ∧ x < t + length)) ≤
        (admitted limit length (afterOwn length o pre) (t :: post)).countP
          fun x ↦ decide (x < t + length) := by
    refine List.countP_mono_left fun x _ hx ↦ ?_
    simp only [decide_eq_true_eq] at hx ⊢
    omega
  rw [admitted_append, List.countP_append]
  omega

theorem count_afterOwn_le (ho : ∀ w ∈ o, w.count ≤ now)
    (hw : afterOwn length o instants = some w) : w.count ≤ now + instants.length := by
  induction instants generalizing o now with
  | nil => exact ho w hw
  | cons t ts ih =>
      have hhit : (Window.hit length t o).count ≤ now + 1 := by
        cases o with
        | none => exact Nat.le_add_left _ _
        | some w₀ =>
            have hw₀ := ho w₀ rfl
            simp only [Window.hit]
            split
            · exact Nat.le_add_left _ _
            · exact Nat.succ_le_succ hw₀
      have htail := ih (o := some (Window.hit length t o)) (fun w' hw' ↦ by
        obtain rfl := Option.some.inj hw'
        exact hhit) hw
      rw [List.length_cons]
      omega

/-- A window opened at one of the requests. -/
theorem started_afterOwn_le {t : ℕ} (ho : ∀ w ∈ o, w.started ≤ t) (hle : ∀ x ∈ instants, x ≤ t)
    (hw : afterOwn length o instants = some w) : w.started ≤ t := by
  induction instants generalizing o with
  | nil => exact ho w hw
  | cons x ts ih =>
      have hrest : ∀ y ∈ ts, y ≤ t := fun y hy ↦ hle y (List.mem_cons_of_mem _ hy)
      apply ih (o := some (Window.hit length x o)) _ hrest hw
      intro w' hw'
      obtain rfl := Option.some.inj hw'
      cases o with
      | none => exact hle x List.mem_cons_self
      | some w₀ =>
          simp only [Window.hit]
          split
          · exact hle x List.mem_cons_self
          · exact ho w₀ rfl

end Client

/-! ## All clients -/

section Clients

variable {κ : Type} [DecidableEq κ] {rs : List (κ × ℕ)} {state state' : κ → Option Window}

/-- A client's request changes the client's window. -/
def step (length : ℕ) (state : κ → Option Window) (r : κ × ℕ) : κ → Option Window :=
  Function.update state r.1 (some (Window.hit length r.2 (state r.1)))

def after (length : ℕ) (state : κ → Option Window) (rs : List (κ × ℕ)) : κ → Option Window :=
  rs.foldl (step length) state

/-- Which requests are let through. -/
def decisions (limit length : ℕ) : (κ → Option Window) → List (κ × ℕ) → List Bool
  | _, [] => []
  | state, r :: rs =>
      decide ((Window.hit length r.2 (state r.1)).count ≤ limit) ::
        decisions limit length (step length state r) rs

def instantsOf (a : κ) (rs : List (κ × ℕ)) : List ℕ :=
  (rs.filter fun r ↦ decide (r.1 = a)).map Prod.snd

/-- The decisions on the client's requests. -/
def toldTo (a : κ) (rs : List (κ × ℕ)) (ds : List Bool) : List Bool :=
  ((rs.zip ds).filter fun x ↦ decide (x.1.1 = a)).map Prod.snd

/-- The instants at which the client is let through. -/
def letThrough (a : κ) (rs : List (κ × ℕ)) (ds : List Bool) : List ℕ :=
  ((rs.zip ds).filter fun x ↦ decide (x.1.1 = a) && x.2).map fun x ↦ x.1.2

theorem step_self (state : κ → Option Window) (a : κ) (t : ℕ) :
    step length state (a, t) a = some (Window.hit length t (state a)) := Function.update_self ..

theorem step_of_ne {a b : κ} (h : a ≠ b) (t : ℕ) : step length state (b, t) a = state a :=
  Function.update_of_ne h ..

theorem instantsOf_cons_self (a : κ) (t : ℕ) (rs : List (κ × ℕ)) :
    instantsOf a ((a, t) :: rs) = t :: instantsOf a rs := by simp [instantsOf]

theorem instantsOf_cons_ne {a b : κ} (h : b ≠ a) (t : ℕ) (rs : List (κ × ℕ)) :
    instantsOf a ((b, t) :: rs) = instantsOf a rs := by simp [instantsOf, h]

theorem instantsOf_filter (a b : κ) (rs : List (κ × ℕ)) :
    instantsOf b (rs.filter fun r ↦ decide (r.1 = a)) = if b = a then instantsOf b rs else [] := by
  unfold instantsOf
  rw [List.filter_filter]
  split
  next hab =>
    subst hab
    simp
  next hab =>
    rw [List.map_eq_nil_iff, List.filter_eq_nil_iff]
    intro r _ hr
    simp only [Bool.and_eq_true, decide_eq_true_eq] at hr
    exact hab (hr.1.symm.trans hr.2)

theorem after_apply (state : κ → Option Window) (rs : List (κ × ℕ)) (a : κ) :
    after length state rs a = afterOwn length (state a) (instantsOf a rs) := by
  induction rs generalizing state with
  | nil => rfl
  | cons r rs ih =>
      obtain ⟨b, t⟩ := r
      have hnext := ih (step length state (b, t))
      by_cases hab : b = a
      · subst hab
        rw [step_self] at hnext
        rw [instantsOf_cons_self]
        exact hnext
      · rw [step_of_ne (Ne.symm hab)] at hnext
        rw [instantsOf_cons_ne hab]
        exact hnext

theorem letThrough_decisions (state : κ → Option Window) (rs : List (κ × ℕ)) (a : κ) :
    letThrough a rs (decisions limit length state rs) =
      admitted limit length (state a) (instantsOf a rs) := by
  induction rs generalizing state with
  | nil => rfl
  | cons r rs ih =>
      obtain ⟨b, t⟩ := r
      have hnext := ih (step length state (b, t))
      by_cases hab : b = a
      · subst hab
        rw [step_self] at hnext
        by_cases hlet : (Window.hit length t (state b)).count ≤ limit
        · simpa [letThrough, instantsOf, decisions, admitted, hlet] using hnext
        · simpa [letThrough, instantsOf, decisions, admitted, hlet] using hnext
      · rw [step_of_ne (Ne.symm hab)] at hnext
        simpa [letThrough, instantsOf, decisions, hab] using hnext

/-- Only the windows of the clients that make requests matter. -/
theorem decisions_congr (h : ∀ r ∈ rs, state r.1 = state' r.1) :
    decisions limit length state rs = decisions limit length state' rs := by
  induction rs generalizing state state' with
  | nil => rfl
  | cons r rs ih =>
      have hfirst := h r List.mem_cons_self
      rw [decisions, decisions, hfirst]
      refine congrArg _ (ih fun r' hr' ↦ ?_)
      obtain ⟨b, t⟩ := r
      by_cases hb : r'.1 = b
      · rw [hb, step_self, step_self, hfirst]
      · rw [step_of_ne hb, step_of_ne hb]
        exact h r' (List.mem_cons_of_mem _ hr')

/-- A client is told the same as if there were no others. -/
theorem toldTo_decisions (state : κ → Option Window) (rs : List (κ × ℕ)) (a : κ) :
    toldTo a rs (decisions limit length state rs) =
      decisions limit length state (rs.filter fun r ↦ decide (r.1 = a)) := by
  induction rs generalizing state with
  | nil => rfl
  | cons r rs ih =>
      obtain ⟨b, t⟩ := r
      have hnext := ih (step length state (b, t))
      by_cases hab : b = a
      · subst hab
        simpa [toldTo, decisions] using hnext
      · have hothers : decisions limit length (step length state (b, t))
            (rs.filter fun r ↦ decide (r.1 = a)) =
              decisions limit length state (rs.filter fun r ↦ decide (r.1 = a)) := by
          refine decisions_congr fun r hr ↦ ?_
          have hra : r.1 = a := by simpa using (List.mem_filter.mp hr).2
          exact step_of_ne (hra ▸ Ne.symm hab) t
        simpa [toldTo, decisions, hab] using hnext.trans hothers

end Clients

end Limits
