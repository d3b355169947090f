import Mathlib.Data.Option.Basic
import Mathlib.Tactic.NormNum
import Mathlib.Tactic.Push

/-!
# The clock

A `Duration` has unsigned seconds of 64 bits, an `Instant`, as Linux has it, signed ones, each with
nanoseconds below a second. So the sum of an instant and a duration need not be an instant.

## Main definitions

* `Instant.checkedAdd` — `Instant::checked_add`

## Main results

* `checkedAdd_isSome_iff` — when the sum is an instant
* `toNanos_of_checkedAdd` — which one
-/

namespace Taunicorn

namespace Transport

/-! ### Durations -/

abbrev nanosPerSec : ℕ := 1000000000

theorem nanosPerSec_pos : 0 < nanosPerSec := by decide

/-- `std::time::Duration`. -/
structure Duration where
  secs : ℕ
  nanos : ℕ
  secs_lt : secs < 2 ^ 64
  nanos_lt : nanos < nanosPerSec
  deriving DecidableEq, Repr

/-- The whole duration in nanoseconds. -/
def Duration.toNanos (d : Duration) : ℕ := d.secs * nanosPerSec + d.nanos

/-- A count of nanoseconds as a duration, if its seconds fit. -/
def Duration.ofNanos (n : ℕ) : Option Duration :=
  if h : n / nanosPerSec < 2 ^ 64 then
    some ⟨n / nanosPerSec, n % nanosPerSec, h, Nat.mod_lt _ nanosPerSec_pos⟩
  else none

/-! ### Instants -/

/-- `std::time::Instant`, as Linux has it. -/
structure Instant where
  secs : ℤ
  nanos : ℕ
  secs_ge : -2 ^ 63 ≤ secs
  secs_lt : secs < 2 ^ 63
  nanos_lt : nanos < nanosPerSec
  deriving DecidableEq, Repr

instance : Inhabited Instant := ⟨0, 0, by norm_num, by norm_num, nanosPerSec_pos⟩

/-- The whole instant in nanoseconds. -/
def Instant.toNanos (t : Instant) : ℤ := t.secs * nanosPerSec + t.nanos

/-- `Instant::checked_add`: the seconds first, then a carry from the nanoseconds, each checked. -/
def Instant.checkedAdd (t : Instant) (d : Duration) : Option Instant :=
  if h : t.secs + d.secs < 2 ^ 63 then
    if hn : t.nanos + d.nanos < nanosPerSec then
      some ⟨t.secs + d.secs, t.nanos + d.nanos, by have := t.secs_ge; omega, h, hn⟩
    else if hs : t.secs + d.secs + 1 < 2 ^ 63 then
      some ⟨t.secs + d.secs + 1, t.nanos + d.nanos - nanosPerSec, by have := t.secs_ge; omega, hs,
        by have := t.nanos_lt; have := d.nanos_lt; omega⟩
    else none
  else none

/-! ### When the sum is an instant -/

/-- The sum is an instant exactly if it lies before the end of the clock. -/
theorem checkedAdd_isSome_iff (t : Instant) (d : Duration) :
    (t.checkedAdd d).isSome ↔ t.toNanos + d.toNanos < 2 ^ 63 * nanosPerSec := by
  have ht : t.nanos < 1000000000 := t.nanos_lt
  have hd : d.nanos < 1000000000 := d.nanos_lt
  rw [Instant.checkedAdd, Instant.toNanos, Duration.toNanos]
  push_cast [nanosPerSec]
  split_ifs with h hn hs
  · simp only [Option.isSome_some, true_iff] at hn ⊢
    omega
  · simp only [Option.isSome_some, true_iff] at hn ⊢
    omega
  · simp only [Option.isSome_none, Bool.false_eq_true, false_iff] at hn ⊢
    omega
  · simp only [Option.isSome_none, Bool.false_eq_true, false_iff]
    omega

/-- The sum, where it is one. -/
theorem toNanos_of_checkedAdd {t t' : Instant} {d : Duration} (h : t.checkedAdd d = some t') :
    t'.toNanos = t.toNanos + d.toNanos := by
  rw [Instant.checkedAdd] at h
  split_ifs at h with _ hn
  · obtain rfl := Option.some.inj h
    simp only [Instant.toNanos, Duration.toNanos, nanosPerSec]
    push_cast
    omega
  · obtain rfl := Option.some.inj h
    simp only [Instant.toNanos, Duration.toNanos, nanosPerSec] at hn ⊢
    push_cast
    omega

end Transport

end Taunicorn
