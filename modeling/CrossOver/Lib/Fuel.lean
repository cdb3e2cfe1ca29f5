import Mathlib.Data.Finset.Card
import Mathlib.Logic.Relation
import CrossOver.Lib.Result

/-!
# Running on fuel

A computation with a bound on its recursion gives up with one failure, and more
of that bound changes nothing else: `Outlasts gaveUp y x` says that `y` does what
`x` does unless `x` gives up.

A loop that makes one step a turn gives up after `n` turns where its steps can be
walked `n` times.  Among finitely many states that never happens for a large `n`,
unless a state is met again.
-/

namespace CrossOver.Lib

section Patience

variable {State Error First Second : Type} {gaveUp : Error}
  {x y : StateT State (Except Error) First} {f g : First → StateT State (Except Error) Second}

def Outlasts (gaveUp : Error) (y x : StateT State (Except Error) First) : Prop :=
  ∀ s, x s ≠ .error gaveUp → y s = x s

theorem Outlasts.refl (x : StateT State (Except Error) First) : Outlasts gaveUp x x :=
  fun _ _ => rfl

theorem Outlasts.trans {z : StateT State (Except Error) First} (later : Outlasts gaveUp z y)
    (earlier : Outlasts gaveUp y x) : Outlasts gaveUp z x := by
  intro s ended
  have same := earlier s ended
  rw [later s (same ▸ ended), same]

theorem outlasts_throw (y : StateT State (Except Error) First) :
    Outlasts gaveUp y (throw gaveUp) := fun _ ended => absurd rfl ended

/-- The same for one run of the second part. -/
theorem bind_outlasts {x y : Except Error First} {f g : First → Except Error Second}
    (ended : (x >>= f) ≠ .error gaveUp) (first : x ≠ .error gaveUp → y = x)
    (rest : ∀ made, f made ≠ .error gaveUp → g made = f made) : (y >>= g) = (x >>= f) := by
  cases x with
  | error failure =>
      rw [first fun same => ended (by rw [same]; rfl)]
      rfl
  | ok made =>
      rw [first fun same => by cases same]
      exact rest made ended

theorem Outlasts.bind (first : Outlasts gaveUp y x)
    (rest : ∀ value, Outlasts gaveUp (g value) (f value)) :
    Outlasts gaveUp (y >>= g) (x >>= f) := fun s ended =>
  bind_outlasts ended (first s) fun made => rest made.1 made.2

end Patience

section Walks

variable {State : Type*} {Step : State → State → Prop} {a b c : State}

/-- Another state is reached by that many steps. -/
def Walk (Step : State → State → Prop) : Nat → State → State → Prop
  | 0, a, b => a = b
  | turns + 1, a, b => ∃ c, Step a c ∧ Walk Step turns c b

/-- Where no state is met twice a walk is shorter than the states are many. -/
theorem Walk.short [DecidableEq State] {places : Finset State} {turns : Nat}
    (walked : Walk Step turns a b)
    (inside : ∀ c, Relation.ReflTransGen Step a c → c ∈ places)
    (once : ∀ c, Relation.ReflTransGen Step a c → ¬ Relation.TransGen Step c c) :
    turns < places.card := by
  induction turns generalizing a places with
  | zero => exact Finset.card_pos.mpr ⟨a, inside a .refl⟩
  | succ turns inductionHypothesis =>
      obtain ⟨c, step, rest⟩ := walked
      -- the first state is out of reach from here on
      have fewer : turns < (places.erase a).card := by
        refine inductionHypothesis rest (fun d reached => ?_) fun d reached =>
          once d (.head step reached)
        refine Finset.mem_erase.mpr ⟨?_, inside d (.head step reached)⟩
        rintro rfl
        exact once d .refl (.head' step reached)
      rw [Finset.card_erase_of_mem (inside a .refl)] at fewer
      omega

theorem Walk.endless (reached : Relation.ReflTransGen Step a b)
    (cycle : Relation.TransGen Step b b) (turns : Nat) : ∃ c, Walk Step turns a c := by
  induction turns generalizing a with
  | zero => exact ⟨a, rfl⟩
  | succ turns inductionHypothesis =>
      have onward : ∃ c, Step a c ∧ Relation.ReflTransGen Step c b := by
        rcases Relation.ReflTransGen.cases_head reached with same | onward
        · subst same
          exact Relation.TransGen.head'_iff.mp cycle
        · exact onward
      obtain ⟨c, step, back⟩ := onward
      obtain ⟨d, walked⟩ := inductionHypothesis back
      exact ⟨d, c, step, walked⟩

end Walks

end CrossOver.Lib
