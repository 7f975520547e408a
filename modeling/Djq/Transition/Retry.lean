import Mathlib.Data.Nat.Init

/-!
# Trying again

An operation that may fail is tried until it succeeds, up to a limit. Where the
outcome of a try depends on nothing but its number, what the tries come to is a
function of the limit.
-/

namespace Transition

variable {ε α : Type}

/-- The try that ends it, and what it comes to: from try `k` on, with `left` more after it. -/
def retriedFrom (f : Nat → Except ε α) (k : Nat) : Nat → Nat × Except ε α
  | 0 => (k, f k)
  | left + 1 =>
    match f k with
    | .ok a => (k, .ok a)
    | .error _ => retriedFrom f (k + 1) left

/-- Tries `1`, `2` and so on, up to `limit` of them. -/
def retried (f : Nat → Except ε α) (limit : Nat) : Nat × Except ε α := retriedFrom f 1 (limit - 1)

theorem retriedFrom_eq {f : Nat → Except ε α} {k n left : Nat} (first : k ≤ n) (last : n ≤ k + left)
    (failed : ∀ m, k ≤ m → m < n → ∃ e, f m = .error e) (ends : (∃ a, f n = .ok a) ∨ n = k + left) :
    retriedFrom f k left = (n, f n) := by
  induction left generalizing k with
  | zero =>
    obtain rfl : n = k := by omega
    rfl
  | succ left ih =>
    by_cases here : n = k
    · subst here
      obtain ⟨a, done⟩ | more := ends
      · rw [retriedFrom, done]
      · omega
    · obtain ⟨e, error⟩ := failed k (Nat.le_refl k) (by omega)
      rw [retriedFrom, error]
      apply ih (by omega) (by omega)
      · intro m le
        exact failed m (by omega)
      · rcases ends with done | exhausted
        · exact .inl done
        · exact .inr (by omega)

/-- **The rule**: every try before the `n`th has failed, and the `n`th has not or is the last. -/
theorem retried_eq {f : Nat → Except ε α} {n limit : Nat} (first : 1 ≤ n) (last : n ≤ limit)
    (failed : ∀ m, 1 ≤ m → m < n → ∃ e, f m = .error e) (ends : (∃ a, f n = .ok a) ∨ n = limit) :
    retried f limit = (n, f n) := by
  apply retriedFrom_eq first (by omega) failed
  rcases ends with done | exhausted
  · exact .inl done
  · exact .inr (by omega)

end Transition
