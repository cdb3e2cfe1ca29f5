import Mathlib.Algebra.Order.Ring.Int
import Mathlib.Tactic.Common

/-!
# Pieces that follow each other

A piece is an offset and a size.  Pieces that tile an interval start where the
one before them ends; each position then lies in exactly one of them.
-/

namespace CrossOver.Lib

def Tiles : Int → List (Int × Int) → Int → Prop
  | start, [], stop => start = stop
  | start, (offset, size) :: rest, stop =>
      offset = start ∧ 0 ≤ size ∧ Tiles (start + size) rest stop

/-- The position lies in the piece. -/
def covers (position : Int) (piece : Int × Int) : Bool :=
  piece.1 ≤ position && position < piece.1 + piece.2

namespace Tiles

variable {start middle stop : Int} {pieces more : List (Int × Int)}

theorem append (first : Tiles start pieces middle) (second : Tiles middle more stop) :
    Tiles start (pieces ++ more) stop := by
  induction pieces generalizing start with
  | nil =>
      obtain rfl : start = middle := first
      exact second
  | cons piece rest inductionHypothesis =>
      obtain ⟨offset, positive, later⟩ := first
      exact ⟨offset, positive, inductionHypothesis later⟩

theorem single {size : Int} (positive : 0 ≤ size) : Tiles start [(start, size)] (start + size) :=
  ⟨rfl, positive, rfl⟩

theorem le (tiles : Tiles start pieces stop) : start ≤ stop := by
  induction pieces generalizing start with
  | nil => exact le_of_eq tiles
  | cons piece rest inductionHypothesis =>
      obtain ⟨-, positive, later⟩ := tiles
      have behind := inductionHypothesis later
      omega

theorem inside (tiles : Tiles start pieces stop) :
    ∀ piece ∈ pieces, start ≤ piece.1 ∧ 0 ≤ piece.2 ∧ piece.1 + piece.2 ≤ stop := by
  induction pieces generalizing start with
  | nil => exact fun piece membership => absurd membership List.not_mem_nil
  | cons first rest inductionHypothesis =>
      obtain ⟨offset, positive, later⟩ := tiles
      have behind := later.le
      rintro piece (_ | ⟨_, membership⟩)
      · exact ⟨le_of_eq offset.symm, positive, by omega⟩
      · obtain ⟨lower, positiveThere, upper⟩ := inductionHypothesis later piece membership
        exact ⟨by omega, positiveThere, upper⟩

/-- In front of the tiles there is nothing. -/
theorem uncovered (tiles : Tiles start pieces stop) {position : Int} (before : position < start) :
    pieces.countP (covers position) = 0 := by
  rw [List.countP_eq_zero]
  intro piece membership
  obtain ⟨lower, -, -⟩ := tiles.inside piece membership
  simp only [covers, Bool.and_eq_true, decide_eq_true_eq]
  omega

theorem once (tiles : Tiles start pieces stop) {position : Int} (lower : start ≤ position)
    (upper : position < stop) : pieces.countP (covers position) = 1 := by
  induction pieces generalizing start with
  | nil =>
      have empty : start = stop := tiles
      omega
  | cons piece rest inductionHypothesis =>
      obtain ⟨offset, size⟩ := piece
      obtain ⟨rfl, positive, later⟩ := tiles
      by_cases here : position < offset + size
      · have covered : covers position (offset, size) = true := by
          simp only [covers, Bool.and_eq_true, decide_eq_true_eq]
          exact ⟨lower, here⟩
        rw [List.countP_cons_of_pos covered, later.uncovered here]
      · have missed : ¬covers position (offset, size) = true := by
          simp only [covers, Bool.and_eq_true, decide_eq_true_eq]
          omega
        rw [List.countP_cons_of_neg missed]
        exact inductionHypothesis later (by omega)

end Tiles

end CrossOver.Lib
