import Mathlib.Algebra.Order.BigOperators.Group.List
import Mathlib.Algebra.Order.Group.Nat
import Mathlib.Algebra.Ring.Nat
import Mathlib.Data.List.Perm.Subperm
import Mathlib.Logic.Relation

/-!
# What a traversal with a table of visited nodes comes to

`reaches_image_iff` is about a map between two graphs that turns the successors
of every node reached into the successors of its image: what the image of the root
reaches are the images of what the root reaches.

`visited_cost_le` bounds what the visits cost together, when no node is visited twice.
-/

namespace CrossOver.Lib

open Relation

section Images

variable {Node Image : Type*} {next : Node → Node → Prop} {nextImage : Image → Image → Prop}
  {image : Node → Image} {root : Node}

def ImagesSuccessors (next : Node → Node → Prop) (nextImage : Image → Image → Prop)
    (image : Node → Image) (a : Node) : Prop :=
  ∀ b, nextImage (image a) b ↔ ∃ c, next a c ∧ image c = b

theorem reaches_image_iff
    (successors : ∀ a, ReflTransGen next root a → ImagesSuccessors next nextImage image a)
    {b : Image} :
    ReflTransGen nextImage (image root) b ↔ ∃ a, ReflTransGen next root a ∧ image a = b := by
  constructor
  · intro reached
    induction reached with
    | refl => exact ⟨root, .refl, rfl⟩
    | tail _ step inductionHypothesis =>
        obtain ⟨a, reachedA, rfl⟩ := inductionHypothesis
        obtain ⟨c, stepC, rfl⟩ := (successors a reachedA _).mp step
        exact ⟨c, reachedA.tail stepC, rfl⟩
  · rintro ⟨a, reached, rfl⟩
    induction reached with
    | refl => exact .refl
    | tail reachedA step inductionHypothesis =>
        exact inductionHypothesis.tail ((successors _ reachedA _).mpr ⟨_, step, rfl⟩)

/-- A set with the root and all successors of its elements has what the root reaches. -/
theorem reached_of_closed (Visited : Node → Prop) (start : Visited root)
    (closed : ∀ a b, Visited a → next a b → Visited b) {a : Node}
    (reached : ReflTransGen next root a) : Visited a := by
  induction reached with
  | refl => exact start
  | tail _ step inductionHypothesis => exact closed _ _ inductionHypothesis step

end Images

theorem visited_cost_le {Node : Type*} {cost : Node → Nat} {visited nodes : List Node}
    (distinct : visited.Nodup) (within : visited ⊆ nodes) :
    (visited.map cost).sum ≤ (nodes.map cost).sum := by
  obtain ⟨part, same, sublist⟩ := List.subperm_of_subset distinct within
  rw [← (same.map cost).sum_eq]
  exact (sublist.map cost).sum_le_sum fun _ _ => Nat.zero_le _

end CrossOver.Lib
