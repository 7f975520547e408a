import Djq.Transition.Run
import Mathlib.Algebra.BigOperators.Group.Finset.Basic
import Mathlib.Algebra.Order.Ring.Nat

/-!
# Tallies

What a system counts against what it does. Between the two stands what is in
flight: `owed` has been done and not counted, `ahead` counted and not done. A
tally over many parties changes with the one party that moves.
-/

namespace Transition

variable {S L ι : Type}

/-- One term of a sum changes. -/
theorem sum_change [DecidableEq ι] {parties : Finset ι} {f g : ι → Nat} {i : ι} (mem : i ∈ parties)
    (others : ∀ k ∈ parties, k ≠ i → g k = f k) :
    ∑ k ∈ parties, g k + f i = ∑ k ∈ parties, f k + g i := by
  rw [← Finset.add_sum_erase _ g mem, ← Finset.add_sum_erase _ f mem]
  have rest : ∑ k ∈ parties.erase i, g k = ∑ k ∈ parties.erase i, f k := by
    apply Finset.sum_congr rfl
    intro k inside
    exact others k (Finset.mem_of_mem_erase inside) (Finset.ne_of_mem_erase inside)
  omega

/-- How often the labels of a run do something. -/
def tally (done : L → Nat) (ls : List L) : Nat := (ls.map done).sum

theorem tally_snoc (done : L → Nat) (ls : List L) (l : L) : tally done (ls ++ [l]) = tally done ls + done l := by
  simp [tally]

/-- **Tally rule**: counting keeps up with doing, step by step, up to what is in flight. -/
theorem Run.tally {step : S → L → S → Prop} {s₀ : S} (counted owed ahead : S → Nat) (done : L → Nat)
    (start : counted s₀ + owed s₀ = ahead s₀)
    (keep : ∀ ls s l s', Run step s₀ ls s → step s l s' →
      counted s' + owed s' + ahead s = counted s + owed s + done l + ahead s')
    {ls s} (run : Run step s₀ ls s) : counted s + owed s = Transition.tally done ls + ahead s := by
  induction run with
  | nil => simpa [Transition.tally] using start
  | snoc before last ih =>
    have one := keep _ _ _ _ before last
    rw [tally_snoc]
    omega

end Transition
