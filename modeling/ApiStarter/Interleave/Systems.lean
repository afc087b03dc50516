import Mathlib.Logic.Basic

/-!
# Runs of a system with actions

A system is given by what each action does to a state, `none` when the action
is not possible there.  Runs may be restricted to steps that meet a condition.
-/

namespace Interleave

structure System (State Action : Type) where
  perform : State → Action → Option State

namespace System

variable {State Action : Type} (S : System State Action) (allowed : State → Action → Prop)

/-- States that steps meeting `allowed` lead to. -/
inductive Run (s : State) : State → Prop
  | refl : Run s s
  | step {q q' : State} (a : Action) (hq : Run s q) (ha : allowed q a)
      (h : S.perform q a = some q') : Run s q'

def performAll [∀ q a, Decidable (allowed q a)] (q : State) : List Action → Option State
  | [] => some q
  | a :: as => if allowed q a then (S.perform q a).bind fun q' ↦ performAll q' as else none

variable {S allowed} {s q : State}

theorem Run.invariant {Inv : State → Prop} (hrun : S.Run allowed s q) (hinit : Inv s)
    (hstep : ∀ q a q', allowed q a → S.perform q a = some q' → Inv q → Inv q') : Inv q := by
  induction hrun with
  | refl => exact hinit
  | step a _ ha h ih => exact hstep _ a _ ha h ih

theorem Run.performAll [∀ q a, Decidable (allowed q a)] {q' : State} {as : List Action}
    (hrun : S.Run allowed s q) (h : S.performAll allowed q as = some q') : S.Run allowed s q' := by
  induction as generalizing q with
  | nil => exact Option.some.inj h ▸ hrun
  | cons a as ih =>
      unfold System.performAll at h
      split at h
      next ha =>
        obtain ⟨d, hd, hrest⟩ := Option.bind_eq_some_iff.mp h
        exact ih (hrun.step a ha hd) hrest
      next => cases h

/-- A schedule that can be performed leads to a state that passes its test. -/
theorem Run.of_schedule [∀ q a, Decidable (allowed q a)] (as : List Action) (test : State → Bool)
    (h : (S.performAll allowed s as).any test = true) : ∃ q, S.Run allowed s q ∧ test q = true := by
  obtain ⟨q, hq, htest⟩ := (Option.any_eq_true ..).mp h
  exact ⟨q, Run.refl.performAll hq, htest⟩

/-! ## Runs with their history -/

/-- Runs that remember every action and the state it was performed in, newest first. -/
inductive Trace (S : System State Action)
    (allowed : State → Action → List (State × Action) → Prop) (s : State) :
    List (State × Action) → State → Prop
  | nil : Trace S allowed s [] s
  | cons {h : List (State × Action)} {q q' : State} (a : Action) (hq : Trace S allowed s h q)
      (ha : allowed q a h) (hp : S.perform q a = some q') : Trace S allowed s ((q, a) :: h) q'

variable {permitted : State → Action → List (State × Action) → Prop}
  {h : List (State × Action)}

/-- The invariant of a trace may rest on what is known of the trace so far. -/
theorem Trace.invariant {I : List (State × Action) → State → Prop}
    (ht : S.Trace permitted s h q) (hinit : I [] s)
    (hstep : ∀ h q a q', S.Trace permitted s h q → permitted q a h → S.perform q a = some q' →
      I h q → I ((q, a) :: h) q') : I h q := by
  induction ht with
  | nil => exact hinit
  | cons a hq ha hp ih => exact hstep _ _ a _ hq ha hp ih

/-- What came before an action is a trace to the state it was performed in, where it was
permitted. -/
theorem Trace.past {later earlier : List (State × Action)} {e : State × Action}
    (ht : S.Trace permitted s h q) (hh : h = later ++ e :: earlier) :
    S.Trace permitted s earlier e.1 ∧ permitted e.1 e.2 earlier ∧
      ∃ q', S.perform e.1 e.2 = some q' := by
  induction ht generalizing later with
  | nil => simp at hh
  | cons a hq ha hp ih =>
      cases later with
      | nil =>
          obtain ⟨rfl, rfl⟩ := List.cons.inj hh
          exact ⟨hq, ha, _, hp⟩
      | cons e' later => exact ih (List.cons.inj hh).2

def traceAll (S : System State Action)
    (permitted : State → Action → List (State × Action) → Prop)
    [∀ q a h, Decidable (permitted q a h)] (h : List (State × Action)) (q : State) :
    List Action → Option (List (State × Action) × State)
  | [] => some (h, q)
  | a :: as =>
      if permitted q a h then
        (S.perform q a).bind fun q' ↦ traceAll S permitted ((q, a) :: h) q' as
      else none

theorem Trace.traceAll [∀ q a h, Decidable (permitted q a h)]
    {r : List (State × Action) × State} {as : List Action} (ht : S.Trace permitted s h q)
    (hr : S.traceAll permitted h q as = some r) : S.Trace permitted s r.1 r.2 := by
  induction as generalizing h q with
  | nil =>
      obtain rfl := Option.some.inj hr
      exact ht
  | cons a as ih =>
      unfold System.traceAll at hr
      split at hr
      next ha =>
        obtain ⟨q', hq', hrest⟩ := Option.bind_eq_some_iff.mp hr
        exact ih (ht.cons a ha hq') hrest
      next => cases hr

theorem Trace.of_schedule [∀ q a h, Decidable (permitted q a h)] (as : List Action)
    (test : List (State × Action) × State → Bool)
    (hr : (S.traceAll permitted [] s as).any test = true) :
    ∃ r, S.Trace permitted s r.1 r.2 ∧ test r = true := by
  obtain ⟨r, hr, htest⟩ := (Option.any_eq_true ..).mp hr
  exact ⟨r, Trace.nil.traceAll hr, htest⟩

end System

end Interleave
