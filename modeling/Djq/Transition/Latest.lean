import Djq.Transition.Run

/-!
# The last word

Some labels of a run speak about a thing; what was said last, `latest`, is what
the run has settled about it. A state component that every step writes exactly
where its label speaks is then read off the labels alone.
-/

namespace Transition

variable {S L β : Type}

/-- Where a label of a run stands that is one label longer. -/
theorem snoc_eq_append_cons {ls pre post : List L} {l k : L} (eq : ls ++ [l] = pre ++ k :: post) :
    (pre = ls ∧ k = l ∧ post = []) ∨ ∃ rest, post = rest ++ [l] ∧ ls = pre ++ k :: rest := by
  induction post using List.reverseRecOn with
  | nil =>
    obtain ⟨same, last⟩ := List.append_inj' eq rfl
    exact .inl ⟨same.symm, (List.singleton_inj.1 last).symm, rfl⟩
  | append_singleton rest m _ =>
    rw [← List.cons_append, ← List.append_assoc] at eq
    obtain ⟨same, last⟩ := List.append_inj' eq rfl
    obtain rfl := List.singleton_inj.1 last
    exact .inr ⟨rest, rfl, same⟩

/-- What the labels said last. -/
def latest (word : L → Option β) (ls : List L) : Option β := ls.foldl (fun last l => (word l).or last) none

theorem latest_nil (word : L → Option β) : latest word [] = none := rfl

variable {word : L → Option β}

theorem latest_snoc (ls : List L) (l : L) : latest word (ls ++ [l]) = (word l).or (latest word ls) := by
  simp [latest]

theorem latest_snoc_some {l : L} {b : β} (said : word l = some b) (ls : List L) :
    latest word (ls ++ [l]) = some b := by
  rw [latest_snoc, said, Option.some_or]

theorem latest_snoc_none {l : L} (silent : word l = none) (ls : List L) :
    latest word (ls ++ [l]) = latest word ls := by
  rw [latest_snoc, silent, Option.none_or]

theorem latest_append (ls ls' : List L) : latest word (ls ++ ls') = (latest word ls').or (latest word ls) := by
  induction ls' using List.reverseRecOn with
  | nil => rw [List.append_nil, latest_nil, Option.none_or]
  | append_singleton ls' l ih => rw [← List.append_assoc, latest_snoc, latest_snoc, ih, Option.or_assoc]

/-- **Last-word rule.** A component that a step sets to what its label says, and
keeps where the label is silent, is at the end what was said last. -/
theorem Run.latest {step : S → L → S → Prop} {s₀ : S} (read : S → β)
    (follows : ∀ ls s l s', Run step s₀ ls s → step s l s' → read s' = (word l).getD (read s))
    {ls s} (run : Run step s₀ ls s) : read s = (Transition.latest word ls).getD (read s₀) := by
  induction run with
  | nil => rfl
  | @snoc ls s l s' before last ih =>
    rw [follows ls s l s' before last]
    cases said : word l with
    | some b => rw [latest_snoc_some said, Option.getD_some, Option.getD_some]
    | none => rw [latest_snoc_none said, Option.getD_none, ih]

end Transition
