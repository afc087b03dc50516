import Mathlib.Data.Int.Order.Basic

/-!
# Durations and dates with bounds

A duration has at most as many milliseconds as fit into 64 bits, and a date
lies in one of some half a million years.  Building a duration or adding one to
a date gives nothing when the result is outside of these bounds, and the exact
result otherwise.
-/

namespace Chrono

/-! ## Machine integers -/

def minI64 : ℤ := -9223372036854775808

def maxI64 : ℤ := 9223372036854775807

/-- The result of a checked operation. -/
def asI64 (n : ℤ) : Option Int64 := if minI64 ≤ n ∧ n ≤ maxI64 then some (Int64.ofInt n) else none

theorem toInt_mem (i : Int64) : minI64 ≤ i.toInt ∧ i.toInt ≤ maxI64 := by
  have hlow := i.le_toInt
  have hhigh := i.toInt_lt
  simp only [minI64, maxI64]
  omega

theorem asI64_eq_some {n : ℤ} {i : Int64} : asI64 n = some i ↔ i.toInt = n := by
  unfold asI64
  constructor
  · intro h
    split at h
    next hfits =>
      rw [← Option.some.inj h]
      simp only [minI64, maxI64] at hfits
      exact Int64.toInt_ofInt_of_le (by omega) (by omega)
    next => cases h
  · rintro rfl
    rw [if_pos (toInt_mem i), Int64.ofInt_toInt]

/-! ## Durations -/

def nanosPerSec : ℤ := 1000000000

/-- A duration in nanoseconds, `i64::MAX` milliseconds at most. -/
structure TimeDelta where
  nanos : ℤ
  bounded : -(maxI64 * 1000000) ≤ nanos ∧ nanos ≤ maxI64 * 1000000

namespace TimeDelta

/-- `TimeDelta::seconds`, with `none` for a panic. -/
def seconds (n : ℤ) : Option TimeDelta :=
  if h : -(maxI64 * 1000000) ≤ n * nanosPerSec ∧ n * nanosPerSec ≤ maxI64 * 1000000 then
    some ⟨n * nanosPerSec, h⟩
  else none

/-- `TimeDelta::minutes`, `TimeDelta::hours` and so on, of a unit of so many seconds. -/
def ofUnit (secs : ℤ) (n : Int64) : Option TimeDelta :=
  (asI64 (n.toInt * secs)).bind fun total ↦ seconds total.toInt

def minutes (n : Int64) : Option TimeDelta := ofUnit 60 n

def hours (n : Int64) : Option TimeDelta := ofUnit 3600 n

theorem seconds_eq_some {n : ℤ} {d : TimeDelta} :
    seconds n = some d ↔ d.nanos = n * nanosPerSec := by
  unfold seconds
  constructor
  · intro h
    split at h
    · rw [← Option.some.inj h]
    · cases h
  · intro h
    have hbounded := d.bounded
    rw [h] at hbounded
    rw [dif_pos hbounded]
    cases d
    exact congrArg some (by simpa using h.symm)

theorem ofUnit_eq_some {secs : ℤ} {n : Int64} {d : TimeDelta} :
    ofUnit secs n = some d ↔ d.nanos = n.toInt * secs * nanosPerSec := by
  unfold ofUnit
  rw [Option.bind_eq_some_iff]
  constructor
  · rintro ⟨total, htotal, hd⟩
    rw [seconds_eq_some.mp hd, asI64_eq_some.mp htotal]
  · intro h
    have hbounded := d.bounded
    rw [h] at hbounded
    have hfits : minI64 ≤ n.toInt * secs ∧ n.toInt * secs ≤ maxI64 := by
      simp only [maxI64, minI64, nanosPerSec] at hbounded ⊢
      omega
    refine ⟨Int64.ofInt (n.toInt * secs), if_pos hfits, seconds_eq_some.mpr ?_⟩
    rw [h, asI64_eq_some.mp (if_pos hfits : asI64 (n.toInt * secs) = _)]

end TimeDelta

/-! ## Dates -/

/-- The first second of the year -262143, from the epoch. -/
def firstSecond : ℤ := -8334601228800

/-- The last second of the year 262142. -/
def lastSecond : ℤ := 8210266876799

/-- A date in nanoseconds from the epoch. -/
structure DateTime where
  nanos : ℤ
  bounded : firstSecond * nanosPerSec ≤ nanos ∧ nanos < (lastSecond + 1) * nanosPerSec

namespace DateTime

/-- `DateTime + TimeDelta`, with `none` for a panic. -/
def add (t : DateTime) (d : TimeDelta) : Option DateTime :=
  if h : firstSecond * nanosPerSec ≤ t.nanos + d.nanos ∧
      t.nanos + d.nanos < (lastSecond + 1) * nanosPerSec then
    some ⟨t.nanos + d.nanos, h⟩
  else none

def timestamp (t : DateTime) : ℤ := t.nanos / nanosPerSec

theorem add_eq_some {t t' : DateTime} {d : TimeDelta} :
    t.add d = some t' ↔ t'.nanos = t.nanos + d.nanos := by
  unfold add
  constructor
  · intro h
    split at h
    · rw [← Option.some.inj h]
    · cases h
  · intro h
    have hbounded := t'.bounded
    rw [h] at hbounded
    rw [dif_pos hbounded]
    cases t'
    exact congrArg some (by simpa using h.symm)

end DateTime

end Chrono
