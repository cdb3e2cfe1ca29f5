import Mathlib.Logic.Function.Iterate
import Mathlib.Data.List.Perm.Subperm
import Mathlib.Data.List.Nodup
import Mathlib.Data.Nat.ModEq

/-!
# Searching along a cycle

A counter moves on until it meets a value that is not taken.  A search that can
take more turns than there are taken values, and meets no value twice in them,
ends: otherwise the taken values would outnumber themselves.

`ring limit` goes through `1, …, limit` and back to `1`.
-/

namespace CrossOver.Lib

section Search

variable {α : Type*} [DecidableEq α] {next : α → α} {taken : List α} {turns : Nat} {a b : α}

def firstFree (next : α → α) (taken : List α) : Nat → α → Option α
  | 0, _ => none
  | turns + 1, a => if a ∈ taken then firstFree next taken turns (next a) else some a

theorem firstFree_spec (found : firstFree next taken turns a = some b) :
    b ∉ taken ∧ ∃ k < turns, b = next^[k] a := by
  induction turns generalizing a with
  | zero => cases found
  | succ turns inductionHypothesis =>
      rw [firstFree] at found
      split at found
      · obtain ⟨free, k, bound, rfl⟩ := inductionHypothesis found
        exact ⟨free, k + 1, Nat.succ_lt_succ bound, (Function.iterate_succ_apply next k a).symm⟩
      · next free =>
          obtain rfl := Option.some.inj found
          exact ⟨free, 0, Nat.succ_pos turns, rfl⟩

theorem firstFree_eq_none (missed : firstFree next taken turns a = none) :
    ∀ k < turns, next^[k] a ∈ taken := by
  induction turns generalizing a with
  | zero => exact fun k bound => absurd bound (Nat.not_lt_zero k)
  | succ turns inductionHypothesis =>
      rw [firstFree] at missed
      split at missed
      · next membership =>
          intro k bound
          cases k with
          | zero => exact membership
          | succ k =>
              rw [Function.iterate_succ_apply]
              exact inductionHypothesis missed k (Nat.lt_of_succ_lt_succ bound)
      · cases missed

/-- A search among fewer taken values than it has different turns. -/
theorem firstFree_isSome
    (apart : ∀ i < turns, ∀ j < turns, next^[i] a = next^[j] a → i = j)
    (few : taken.length < turns) : ∃ b, firstFree next taken turns a = some b := by
  refine Option.ne_none_iff_exists'.mp fun missed => ?_
  have visited : ((List.range turns).map fun k => next^[k] a).Nodup := by
    refine List.Nodup.map_on ?_ List.nodup_range
    intro i inside j otherInside
    exact apart i (List.mem_range.mp inside) j (List.mem_range.mp otherInside)
  have subset : ((List.range turns).map fun k => next^[k] a) ⊆ taken := by
    intro value membership
    obtain ⟨k, bound, rfl⟩ := List.mem_map.mp membership
    exact firstFree_eq_none missed k (List.mem_range.mp bound)
  have lengths := (visited.subperm subset).length_le
  rw [List.length_map, List.length_range] at lengths
  exact absurd few (Nat.not_lt.mpr lengths)

end Search

/-! ## Counting up to a limit -/

section Ring

variable {limit n : Nat}

def ring (limit n : Nat) : Nat := if n < limit then n + 1 else 1

theorem ring_inside (positive : 0 < limit) (n : Nat) :
    1 ≤ ring limit n ∧ ring limit n ≤ limit := by
  unfold ring
  split
  · omega
  · omega

theorem ring_iterate (positive : 1 ≤ n) (bounded : n ≤ limit) (k : Nat) :
    (ring limit)^[k] n = (n - 1 + k) % limit + 1 := by
  induction k with
  | zero =>
      have small : n - 1 < limit := by omega
      rw [Function.iterate_zero_apply, Nat.add_zero (n - 1), Nat.mod_eq_of_lt small,
        Nat.sub_add_cancel positive]
  | succ k inductionHypothesis =>
      have below := Nat.mod_lt (n - 1 + k) (Nat.lt_of_lt_of_le positive bounded)
      rw [Function.iterate_succ_apply', inductionHypothesis, ring, ← Nat.add_assoc,
        ← Nat.mod_add_mod (n - 1 + k)]
      split
      · next inner => rw [Nat.mod_eq_of_lt inner]
      · next last =>
          have full : (n - 1 + k) % limit + 1 = limit := by omega
          rw [full, Nat.mod_self]

theorem ring_apart (positive : 1 ≤ n) (bounded : n ≤ limit) :
    ∀ i < limit, ∀ j < limit, (ring limit)^[i] n = (ring limit)^[j] n → i = j := by
  intro i inside j otherInside same
  rw [ring_iterate positive bounded, ring_iterate positive bounded] at same
  have congruent : Nat.ModEq limit (n - 1 + i) (n - 1 + j) := Nat.succ.inj same
  exact (congruent.add_left_cancel' (n - 1)).eq_of_lt_of_lt inside otherInside

theorem firstFree_ring {taken : List Nat} (positive : 1 ≤ n) (bounded : n ≤ limit)
    (few : taken.length < limit) :
    ∃ m, firstFree (ring limit) taken (taken.length + 1) n = some m ∧ m ∉ taken ∧
      1 ≤ m ∧ m ≤ limit := by
  have apart := ring_apart positive bounded
  have ended : ∃ m, firstFree (ring limit) taken (taken.length + 1) n = some m :=
    firstFree_isSome (fun i inside j otherInside => apart i (by omega) j (by omega))
      (Nat.lt_succ_self _)
  obtain ⟨m, found⟩ := ended
  obtain ⟨free, k, -, rfl⟩ := firstFree_spec found
  refine ⟨_, found, free, ?_⟩
  rw [ring_iterate positive bounded]
  have below := Nat.mod_lt (n - 1 + k) (by omega : limit > 0)
  omega

end Ring

end CrossOver.Lib
