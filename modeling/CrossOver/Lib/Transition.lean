import Mathlib.Tactic.Common

/-!
# Labelled transition systems

A system is given by its initial states and its labelled steps.  `Reachable`
is reachability along any labels; `restrict` keeps only the steps that meet a
condition on the state and the label, and reachability in the restricted
system is reachability by a run all of whose steps meet it.
-/

namespace CrossOver.Lib

universe u v

structure System (State : Type u) (Label : Type v) where
  initial : State → Prop
  step : State → Label → State → Prop

namespace System

variable {State : Type u} {Label : Type v} {sys : System State Label}

inductive Reachable (sys : System State Label) : State → Prop where
  | start {s : State} : sys.initial s → Reachable sys s
  | next {s t : State} {label : Label} :
      Reachable sys s → sys.step s label t → Reachable sys t

/-- Keep the steps that meet a condition on the state they start in. -/
def restrict (sys : System State Label) (guard : State → Label → Prop) :
    System State Label where
  initial := sys.initial
  step s label t := guard s label ∧ sys.step s label t

theorem Reachable.of_restrict {guard : State → Label → Prop} {s : State}
    (reached : (sys.restrict guard).Reachable s) : sys.Reachable s := by
  induction reached with
  | start initial => exact .start initial
  | next _ step inductionHypothesis => exact .next inductionHypothesis step.2

def startingAt (sys : System State Label) (s : State) : System State Label where
  initial t := t = s
  step := sys.step

/-- A run goes on where another one ended. -/
theorem Reachable.of_startingAt {s t : State} (reached : sys.Reachable s)
    (run : (sys.startingAt s).Reachable t) : sys.Reachable t := by
  induction run with
  | start same => exact same ▸ reached
  | next _ step inductionHypothesis => exact .next inductionHypothesis step

theorem Reachable.of_restrict_startingAt {guard : State → Label → Prop} {s t : State}
    (run : ((sys.restrict guard).startingAt s).Reachable t) : (sys.startingAt s).Reachable t := by
  induction run with
  | start same => exact .start same
  | next _ step inductionHypothesis => exact .next inductionHypothesis step.2

theorem Reachable.invariant {holds : State → Prop}
    (initially : ∀ s, sys.initial s → holds s)
    (preserved : ∀ s label t, sys.Reachable s → holds s → sys.step s label t → holds t)
    {s : State} (reached : sys.Reachable s) : holds s := by
  induction reached with
  | start initial => exact initially _ initial
  | next before step inductionHypothesis => exact preserved _ _ _ before inductionHypothesis step

end System

end CrossOver.Lib
