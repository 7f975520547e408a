import Mathlib.Algebra.Order.Ring.Int

/-!
# Retry backoff

`crates/core/src/backoff.rs`, in whole seconds. The policies the store builds
have an integral base, the factor two and no jitter, so every intermediate value
of the source's `f64` computation is an integer below 2^64 with at most 32
significant bits, and the floating-point result is exact.
-/

namespace Djq

structure BackoffPolicy where
  base : Nat
  factor : Nat
  max : Nat

namespace BackoffPolicy

def exponential (baseSecs maxSecs : Nat) : BackoffPolicy where
  base := Nat.max baseSecs 1
  factor := 2
  max := Nat.max maxSecs (Nat.max baseSecs 1)

/-- The delay in seconds before attempt `attempt + 1`; the exponent is clamped at 32. -/
def delayForAttempt (policy : BackoffPolicy) (attempt : Nat) : Nat :=
  let attempt := Nat.max attempt 1
  let exp := Nat.min (attempt - 1) 32
  let raw := policy.base * policy.factor ^ exp
  Nat.min raw policy.max

theorem delayForAttempt_le_max (policy : BackoffPolicy) (attempt : Nat) :
    policy.delayForAttempt attempt ≤ policy.max :=
  Nat.min_le_right _ _

/-- The clamp of the exponent never shows under a 32-bit ceiling. -/
theorem min_clamped {base max n : Nat} (positive : 1 ≤ base) (ceiling : max < 2 ^ 32) :
    min (base * 2 ^ min n 32) max = min (base * 2 ^ n) max := by
  by_cases small : n ≤ 32
  · rw [Nat.min_eq_left small]
  · have large : 32 ≤ n := by omega
    have reached : max ≤ base * 2 ^ 32 := by omega
    have beyond : base * 2 ^ 32 ≤ base * 2 ^ n := Nat.mul_le_mul_left base (Nat.pow_le_pow_right (by decide) large)
    rw [Nat.min_eq_right large]
    omega

/-- The policy the store builds, without its clamps. -/
theorem delayForAttempt_exponential {base max attempt : Nat} (positive : 1 ≤ base) (ordered : base ≤ max)
    (ceiling : max < 2 ^ 32) (first : 1 ≤ attempt) :
    (exponential base max).delayForAttempt attempt = min (base * 2 ^ (attempt - 1)) max := by
  have floor : Nat.max base 1 = base := Nat.max_eq_left positive
  have cap : Nat.max max base = max := Nat.max_eq_left ordered
  simp only [delayForAttempt, exponential, floor, cap, Nat.max_eq_left first]
  exact min_clamped positive ceiling

end BackoffPolicy

end Djq
