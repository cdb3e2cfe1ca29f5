import Mathlib.Logic.Relation

/-!
# Machines with one step at most

`turn` is the step of a machine, if it makes one.  What holds throughout a run can be
read off one turn after the other.
-/

namespace CrossOver.Lib

variable {State : Type*} {turn : State → Option State} {holds : State → Prop} {s t : State}

/-- The condition holds in a state and in all that come behind it. -/
def Throughout (turn : State → Option State) (holds : State → Prop) (s : State) : Prop :=
  ∀ t, Relation.ReflTransGen (fun a b => turn a = some b) s t → holds t

theorem Throughout.here (throughout : Throughout turn holds s) : holds s := throughout s .refl

theorem throughout_some (next : turn s = some t) :
    Throughout turn holds s ↔ holds s ∧ Throughout turn holds t := by
  constructor
  · exact fun throughout => ⟨throughout.here, fun u reached => throughout u (.head next reached)⟩
  · rintro ⟨here, later⟩ u reached
    rcases Relation.ReflTransGen.cases_head reached with rfl | ⟨v, step, onward⟩
    · exact here
    · rw [next] at step
      cases step
      exact later u onward

theorem throughout_none (stuck : turn s = none) : Throughout turn holds s ↔ holds s := by
  refine ⟨Throughout.here, fun here u reached => ?_⟩
  rcases Relation.ReflTransGen.cases_head reached with rfl | ⟨v, step, -⟩
  · exact here
  · rw [stuck] at step
    cases step

end CrossOver.Lib
