import Mathlib.Data.List.Induction

/-!
# Runs of a labelled transition system

A run is the list of labels a system has gone through from a start state, with
the state it has arrived at. Properties of a run are read off its labels, so a
label should say what the step did. Runs grow at the right end: an invariant of
all runs is an induction in which the last step is the one looked at.
-/

namespace Transition

variable {S L : Type}

/-- The labelled runs of `step` from `s₀`. -/
inductive Run (step : S → L → S → Prop) (s₀ : S) : List L → S → Prop where
  | nil : Run step s₀ [] s₀
  | snoc {ls : List L} {s : S} {l : L} {s' : S} (run : Run step s₀ ls s) (last : step s l s') :
      Run step s₀ (ls ++ [l]) s'

/-- The steps of `step` that also meet `ok`, a condition on the state before and the label. -/
def Restrict (ok : S → L → Prop) (step : S → L → S → Prop) (s : S) (l : L) (s' : S) : Prop :=
  ok s l ∧ step s l s'

section Rules

variable {step : S → L → S → Prop} {s₀ : S}

/-- **Invariant rule.** -/
theorem Run.invariant {Inv : S → Prop} (start : Inv s₀)
    (keep : ∀ s l s', Inv s → step s l s' → Inv s') {ls s} (run : Run step s₀ ls s) : Inv s := by
  induction run with
  | nil => exact start
  | snoc _ last ih => exact keep _ _ _ ih last

/-- **Invariant rule with history**: the invariant may speak of the labels so
far, and the step case may use the run that led to the state before. -/
theorem Run.history {Inv : List L → S → Prop} (start : Inv [] s₀)
    (keep : ∀ ls s l s', Run step s₀ ls s → Inv ls s → step s l s' → Inv (ls ++ [l]) s')
    {ls s} (run : Run step s₀ ls s) : Inv ls s := by
  induction run with
  | nil => exact start
  | snoc before last ih => exact keep _ _ _ _ before ih last

theorem Run.one {l s'} (h : step s₀ l s') : Run step s₀ [l] s' :=
  (Run.nil : Run step s₀ [] s₀).snoc h

theorem Run.append {ls ls' : List L} {s s' : S} (first : Run step s₀ ls s)
    (second : Run step s ls' s') : Run step s₀ (ls ++ ls') s' := by
  induction second with
  | nil => simpa using first
  | snoc _ last ih => simpa [List.append_assoc] using ih.snoc last

theorem Run.cons {l s ls s'} (first : step s₀ l s) (rest : Run step s ls s') :
    Run step s₀ (l :: ls) s' :=
  (Run.one first).append rest

theorem Run.snoc_inv {ls : List L} {l : L} {s' : S} (run : Run step s₀ (ls ++ [l]) s') :
    ∃ s, Run step s₀ ls s ∧ step s l s' := by
  generalize eq : ls ++ [l] = all at run
  cases run with
  | nil => simp at eq
  | snoc before last =>
    obtain ⟨rfl, same⟩ := List.append_inj' eq rfl
    obtain rfl := List.singleton_inj.1 same
    exact ⟨_, before, last⟩

/-- A run over a concatenation passes through a state between the two parts. -/
theorem Run.split {ls₁ ls₂ : List L} {s' : S} (run : Run step s₀ (ls₁ ++ ls₂) s') :
    ∃ s, Run step s₀ ls₁ s ∧ Run step s ls₂ s' := by
  induction ls₂ using List.reverseRecOn generalizing s' with
  | nil => exact ⟨s', by simpa using run, .nil⟩
  | append_singleton ls₂ l ih =>
    rw [← List.append_assoc] at run
    obtain ⟨t, before, last⟩ := run.snoc_inv
    obtain ⟨s, first, second⟩ := ih before
    exact ⟨s, first, second.snoc last⟩

/-- A label of a run with the states before and after it. -/
theorem Run.at_label {pre post : List L} {l : L} {s' : S} (run : Run step s₀ (pre ++ l :: post) s') :
    ∃ s t, Run step s₀ pre s ∧ step s l t ∧ Run step t post s' := by
  rw [List.append_cons] at run
  obtain ⟨t, before, rest⟩ := run.split
  obtain ⟨s, first, last⟩ := before.snoc_inv
  exact ⟨s, t, first, last, rest⟩

theorem Run.mono {step' : S → L → S → Prop} (sub : ∀ s l s', step s l s' → step' s l s')
    {ls s} (run : Run step s₀ ls s) : Run step' s₀ ls s := by
  induction run with
  | nil => exact .nil
  | snoc _ last ih => exact ih.snoc (sub _ _ _ last)

/-- A restricted run is a run. -/
theorem Run.unrestrict {ok : S → L → Prop} {ls s} (run : Run (Restrict ok step) s₀ ls s) :
    Run step s₀ ls s :=
  run.mono fun _ _ _ h => h.2

/-- A run through states that meet the condition is a restricted run. -/
theorem Run.restrict {ok : S → L → Prop} (met : ∀ ls s l, Run step s₀ ls s → ok s l) {ls s}
    (run : Run step s₀ ls s) : Run (Restrict ok step) s₀ ls s := by
  induction run with
  | nil => exact .nil
  | snoc before last ih => exact ih.snoc ⟨met _ _ _ before, last⟩

end Rules

end Transition
