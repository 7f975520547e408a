import Djq.Transition.Run

/-!
# Replaying scripts

An executable `act` says what an action does to a state, if it is enabled. A
script every action of which is enabled is a run, and what the run ends in can
be evaluated.
-/

namespace Transition

variable {S A L : Type}

/-- Do the actions of a script one after the other. -/
def play (act : S → A → Option (L × S)) (s : S) : List A → Option (List L × S)
  | [] => some ([], s)
  | a :: as =>
    match act s a with
    | none => none
    | some (l, s) => (play act s as).map fun (ls, s) => (l :: ls, s)

/-- The labels of a script. -/
def script (act : S → A → Option (L × S)) (s : S) (as : List A) : List L := ((play act s as).map Prod.fst).getD []

/-- The state a script ends in. -/
def outcome (act : S → A → Option (L × S)) (s : S) (as : List A) : S := ((play act s as).map Prod.snd).getD s

section Rules

variable {act : S → A → Option (L × S)} {step : S → L → S → Prop}

theorem play_run (sound : ∀ s a l s', act s a = some (l, s') → step s l s') {s s' : S} {as : List A}
    {ls : List L} (played : play act s as = some (ls, s')) : Run step s ls s' := by
  induction as generalizing s ls with
  | nil =>
    obtain ⟨rfl, rfl⟩ := Prod.mk.inj (Option.some.inj played)
    exact .nil
  | cons a as ih =>
    rw [play] at played
    rcases first : act s a with _ | ⟨l, t⟩
    · simp [first] at played
    · simp only [first, Option.map_eq_some_iff, Prod.exists, Prod.mk.injEq] at played
      obtain ⟨rest, _, played, rfl, rfl⟩ := played
      exact .cons (sound s a l t first) (ih played)

/-- **A script that can be played is a run.** -/
theorem outcome_run (sound : ∀ s a l s', act s a = some (l, s') → step s l s') {s : S} {as : List A}
    (enabled : (play act s as).isSome = true) : Run step s (script act s as) (outcome act s as) := by
  obtain ⟨⟨ls, s'⟩, played⟩ := Option.isSome_iff_exists.1 enabled
  have run : Run step s ls s' := play_run sound played
  simpa only [script, outcome, played, Option.map_some, Option.getD_some] using run

/-- Actions that lead to steps that meet a condition. -/
def guarded (ok : S → L → Prop) [∀ s l, Decidable (ok s l)] (act : S → A → Option (L × S)) (s : S) (a : A) :
    Option (L × S) :=
  (act s a).filter fun (l, _) => decide (ok s l)

theorem guarded_step {ok : S → L → Prop} [∀ s l, Decidable (ok s l)]
    (sound : ∀ s a l s', act s a = some (l, s') → step s l s') (s : S) (a : A) (l : L) (s' : S)
    (done : guarded ok act s a = some (l, s')) : Restrict ok step s l s' := by
  obtain ⟨done, met⟩ := Option.filter_eq_some_iff.1 done
  exact ⟨of_decide_eq_true met, sound s a l s' done⟩

end Rules

end Transition
