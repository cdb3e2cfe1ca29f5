import Mathlib.Data.List.InsertIdx
import Mathlib.Data.List.Count

/-!
# Passes over a container that grows

`met` has been passed, `ahead` lies ahead of the iterator.  A new element goes
to some place ahead of the iterator or behind it, and the others keep their
order.  So an element that was there at the start is met once.
-/

namespace CrossOver.Lib

variable {α : Type*} [DecidableEq α]

structure Traversal (α : Type*) where
  met : List α
  ahead : List α

namespace Traversal

variable {pass : Traversal α} {a b : α} {ahead : List α}

def meetings (pass : Traversal α) (a : α) : Nat := pass.met.count a + pass.ahead.count a

def advance (pass : Traversal α) : Traversal α where
  met := pass.met ++ pass.ahead.take 1
  ahead := pass.ahead.tail

/-- A place beyond the end is one behind the iterator. -/
def insert (pass : Traversal α) (place : Nat) (a : α) : Traversal α where
  met := pass.met
  ahead := pass.ahead.insertIdx place a

theorem meetings_advance : pass.advance.meetings a = pass.meetings a := by
  obtain ⟨met, ahead⟩ := pass
  unfold meetings advance
  cases ahead with
  | nil => simp
  | cons b rest =>
      dsimp only
      rw [List.take_succ_cons, List.take_zero, List.tail_cons, List.count_append,
        List.count_singleton, List.count_cons]
      omega

theorem meetings_insert (differ : a ≠ b) (place : Nat) :
    (pass.insert place b).meetings a = pass.meetings a := by
  unfold meetings insert
  congr 1
  by_cases inside : place ≤ pass.ahead.length
  · rw [(List.perm_insertIdx b pass.ahead inside).count_eq, List.count_cons_of_ne differ.symm]
  · rw [List.insertIdx_of_length_lt (Nat.lt_of_not_le inside)]

end Traversal

end CrossOver.Lib
