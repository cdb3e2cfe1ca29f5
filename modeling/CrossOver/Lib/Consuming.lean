import CrossOver.Lib.Result

/-!
# Loops that eat up their source

A reader takes one item after the other from a source and updates a state, until there is
no item any more.  When every item makes the source smaller, the size of the source is
enough of a bound for the loop, and the loop satisfies its own equation without one.
-/

namespace CrossOver.Lib

variable {Source State Error : Type}

/-- At most so many turns of the loop. -/
def consumeFor (gaveUp : Error) (next : Source → State → Except Error (Option (State × Source))) :
    Nat → Source → State → Except Error State
  | 0, _, _ => .error gaveUp
  | turns + 1, source, state =>
      match next source state with
      | .error e => .error e
      | .ok none => .ok state
      | .ok (some (later, rest)) => consumeFor gaveUp next turns rest later

/-- The loop, with one turn more than the source is large. -/
def consume (gaveUp : Error) (size : Source → Nat)
    (next : Source → State → Except Error (Option (State × Source))) (source : Source)
    (state : State) : Except Error State :=
  consumeFor gaveUp next (size source + 1) source state

/-- Every item makes the source smaller. -/
def Eats (size : Source → Nat)
    (next : Source → State → Except Error (Option (State × Source))) : Prop :=
  ∀ source state later rest, next source state = .ok (some (later, rest)) →
    size rest < size source

/-- The value holds, or the failure is allowed. -/
def Meets (allowed : Error → Prop) (holds : State → Prop) : Except Error State → Prop
  | .ok value => holds value
  | .error e => allowed e

theorem Meets.bind {First Second : Type} {allowed : Error → Prop} {holds : First → Prop}
    {after : Second → Prop} {x : Except Error First} {f : First → Except Error Second}
    (first : Meets allowed holds x) (rest : ∀ value, holds value → Meets allowed after (f value)) :
    Meets allowed after (x >>= f) := by
  cases x with
  | error e => exact first
  | ok value => exact rest value first

theorem Meets.mono {allowed : Error → Prop} {holds weaker : State → Prop} {x : Except Error State}
    (first : Meets allowed holds x) (implies : ∀ value, holds value → weaker value) :
    Meets allowed weaker x := by
  cases x with
  | error e => exact first
  | ok value => exact implies value first

section Loop

variable {gaveUp : Error} {size : Source → Nat}
  {next : Source → State → Except Error (Option (State × Source))}

theorem consumeFor_enough (eats : Eats size next) {turns more : Nat} {source : Source}
    {state : State} (enough : size source < turns) (enough' : size source < more) :
    consumeFor gaveUp next turns source state = consumeFor gaveUp next more source state := by
  induction turns generalizing more source state with
  | zero => omega
  | succ turns inductionHypothesis =>
      cases more with
      | zero => omega
      | succ more =>
          rw [consumeFor, consumeFor]
          cases item : next source state with
          | error e => rfl
          | ok found =>
              cases found with
              | none => rfl
              | some found =>
                  have smaller := eats _ _ _ _ item
                  exact inductionHypothesis (by omega) (by omega)

theorem consume_none {source : Source} {state : State} (item : next source state = .ok none) :
    consume gaveUp size next source state = .ok state := by
  rw [consume, consumeFor, item]

theorem consume_error {source : Source} {state : State} {e : Error}
    (item : next source state = .error e) :
    consume gaveUp size next source state = .error e := by
  rw [consume, consumeFor, item]

theorem consume_some (eats : Eats size next) {source rest : Source} {state later : State}
    (item : next source state = .ok (some (later, rest))) :
    consume gaveUp size next source state = consume gaveUp size next rest later := by
  have smaller := eats _ _ _ _ item
  rw [consume, consumeFor, item]
  exact consumeFor_enough eats smaller (Nat.lt_succ_self _)

/-- A turn that keeps an invariant, ends where the result holds and fails only as allowed; no
turn meets more than the source the loop has started with. -/
theorem consume_meets (eats : Eats size next) {allowed : Error → Prop}
    {inside holds : State → Prop} {source : Source} {state : State}
    (turn : ∀ part later, size part ≤ size source → inside later → Meets allowed
      (fun item => item.elim (holds later) fun found => inside found.1) (next part later))
    (start : inside state) : Meets allowed holds (consume gaveUp size next source state) := by
  generalize bound : size source = count at turn
  have smaller : size source ≤ count := Nat.le_of_eq bound
  clear bound
  induction left : size source using Nat.strongRecOn generalizing source state with
  | _ left inductionHypothesis =>
      have here := turn source state smaller start
      cases item : next source state with
      | error e =>
          rw [consume_error item]
          rwa [item] at here
      | ok found =>
          rw [item] at here
          cases found with
          | none =>
              rw [consume_none item]
              exact here
          | some found =>
              have shorter := eats _ _ _ _ item
              rw [consume_some eats item]
              exact inductionHypothesis _ (left ▸ shorter) here (by omega) rfl

/-- A loop whose turns fail only as allowed. -/
theorem consume_allowed (eats : Eats size next) {allowed : Error → Prop} {source : Source}
    (turn : ∀ part later, size part ≤ size source →
      Meets allowed (fun _ => True) (next part later)) (state : State) :
    Meets allowed (fun _ => True) (consume gaveUp size next source state) := by
  have kept : ∀ part later, size part ≤ size source → True → Meets allowed
      (fun item => item.elim True fun _ => True) (next part later) := by
    intro part later smaller _
    refine (turn part later smaller).mono fun item _ => ?_
    cases item <;> trivial
  exact consume_meets eats kept trivial

end Loop

end CrossOver.Lib
