import Djq.Transition.Run

/-!
# What a player can force

The player picks an action, the system picks one of its outcomes. `Attains` says
that the player reaches the goal in finitely many actions whatever the outcomes
are, so a nondeterminism of the system (the order a database returns tied rows
in) never has to be lucky.
-/

namespace Transition

variable {S A : Type} {outcome : S → A → S → Prop}

/-- From here the player can force `goal` with actions allowed by `may`. -/
inductive Attains (outcome : S → A → S → Prop) (may : A → Prop) (goal : S → Prop) : S → Prop where
  | done {s : S} (reached : goal s) : Attains outcome may goal s
  | act {s : S} (a : A) (allowed : may a) (enabled : ∃ s', outcome s a s')
      (next : ∀ s', outcome s a s' → Attains outcome may goal s') : Attains outcome may goal s

variable {may : A → Prop}

/-- Strategies compose. -/
theorem Attains.bind {mid goal : S → Prop} {s : S} (first : Attains outcome may mid s)
    (second : ∀ s, mid s → Attains outcome may goal s) : Attains outcome may goal s := by
  induction first with
  | done reached => exact second _ reached
  | act a allowed enabled _ ih => exact .act a allowed enabled ih

theorem Attains.mono {goal goal' : S → Prop} {s : S} (h : Attains outcome may goal s)
    (sub : ∀ s, goal s → goal' s) : Attains outcome may goal' s :=
  h.bind fun s reached => .done (sub s reached)

/-- One action all of whose outcomes meet the goal. -/
theorem Attains.one {goal : S → Prop} {s : S} (a : A) (allowed : may a) (enabled : ∃ s', outcome s a s')
    (all : ∀ s', outcome s a s' → goal s') : Attains outcome may goal s :=
  .act a allowed enabled fun s' h => .done (all s' h)

/-- **Ranked loop.** Where the invariant holds the player either is at the goal
or can force the invariant again at a smaller rank. -/
theorem Attains.loop {Inv goal : S → Prop} (rank : S → Nat)
    (body : ∀ s, Inv s → Attains outcome may (fun s' => goal s' ∨ (Inv s' ∧ rank s' < rank s)) s) :
    ∀ s, Inv s → Attains outcome may goal s := by
  intro s
  generalize eq : rank s = n
  induction n using Nat.strongRecOn generalizing s with
  | ind n ih =>
    intro inv
    refine (body s inv).bind ?_
    rintro t (reached | ⟨inv', less⟩)
    · exact .done reached
    · exact ih (rank t) (eq ▸ less) t rfl inv'

/-- A strategy contains at least one actual run, all of whose actions were allowed. -/
theorem Attains.run {goal : S → Prop} {s : S} (h : Attains outcome may goal s) :
    ∃ acts s', Run outcome s acts s' ∧ (∀ a ∈ acts, may a) ∧ goal s' := by
  induction h with
  | done reached => exact ⟨[], _, .nil, by simp, reached⟩
  | act a allowed enabled _ ih =>
    obtain ⟨s', first⟩ := enabled
    obtain ⟨acts, t, rest, may, reached⟩ := ih s' first
    exact ⟨a :: acts, t, .cons first rest, by simpa [allowed] using may, reached⟩

end Transition
