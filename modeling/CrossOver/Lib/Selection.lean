import Mathlib.Data.List.Rotate
import Mathlib.Order.Lattice

/-!
# Selecting positions of a list

Two ways to pick a position: taking turns, where the position after the last
one is the first, and looking for the first of the least values.
-/

namespace CrossOver.Lib

/-- From any position on, as many turns as there are positions visit each of them once. -/
theorem turns_perm (positions start : Nat) :
    ((List.range positions).map fun turn => (start + turn) % positions).Perm
      (List.range positions) := by
  have rotated : ((List.range positions).map fun turn => (start + turn) % positions) =
      (List.range positions).rotate start := by
    apply List.ext_getElem
    · simp
    · intro index _ _
      simp [List.getElem_rotate, Nat.add_comm]
  rw [rotated]
  exact List.rotate_perm _ _

section Least

variable {Value : Type*} [LinearOrder Value] {values rest : List Value} {least : Value}
  {index : Nat}

structure FirstLeast (values : List Value) (least : Value) (index : Nat) : Prop where
  here : values[index]? = some least
  below : ∀ value ∈ values, least ≤ value
  first : ∀ before < index, ∀ value, values[before]? = some value → least < value

namespace FirstLeast

theorem singleton (value : Value) : FirstLeast [value] value 0 where
  here := rfl
  below _ membership := (List.mem_singleton.mp membership).symm.le
  first before impossible := absurd impossible (Nat.not_lt_zero before)

theorem inside (found : FirstLeast values least index) : index < values.length :=
  (List.getElem?_eq_some_iff.mp found.here).1

/-- A further value that is not smaller changes nothing. -/
theorem keep (found : FirstLeast values least index) {value : Value} (larger : least ≤ value) :
    FirstLeast (values ++ [value]) least index where
  here := by rw [List.getElem?_append_left found.inside, found.here]
  below other membership := by
    obtain old | new := List.mem_append.mp membership
    · exact found.below other old
    · rw [List.mem_singleton.mp new]
      exact larger
  first before earlier other there := by
    rw [List.getElem?_append_left (earlier.trans found.inside)] at there
    exact found.first before earlier other there

/-- A smaller value takes the place. -/
theorem replace (found : FirstLeast values least index) {value : Value} (smaller : value < least) :
    FirstLeast (values ++ [value]) value values.length where
  here := by rw [List.getElem?_append_right le_rfl, Nat.sub_self, List.getElem?_cons_zero]
  below other membership := by
    obtain old | new := List.mem_append.mp membership
    · exact smaller.le.trans (found.below other old)
    · exact (List.mem_singleton.mp new).symm.le
  first before earlier other there := by
    rw [List.getElem?_append_left earlier] at there
    exact smaller.trans_le (found.below other (List.mem_of_getElem? there))

end FirstLeast

end Least

end CrossOver.Lib
