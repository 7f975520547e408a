import Djq.Transition.Run

/-!
# Simulation

One system follows another, a step at most for a step, and stands still where the
other only works inside. What the steps show to the outside is a list of
observations; the run that follows shows the same.
-/

namespace Transition

variable {S T L K O : Type} {step : S → L → S → Prop} {step' : T → K → T → Prop} {s₀ : S} {t₀ : T}

end Transition
