import Mathlib.Data.List.Range
import CrossOver.Lib.Bytes

/-!
# Memory behind a pointer

A pointer gives access to every byte behind it, whether or not the program owns
that byte.  `Addresses` is such a memory: the byte at each offset from the
pointer.  A block of it is read and written at an offset.
-/

namespace CrossOver.Lib

/-- The bytes behind a pointer, by their offset from it. -/
abbrev Addresses := Nat → UInt8

namespace Addresses

variable {memory other : Addresses} {data more : Bytes} {offset width : Nat}

def read (memory : Addresses) (offset width : Nat) : Bytes :=
  (List.range' offset width).map memory

def write (memory : Addresses) (offset : Nat) (data : Bytes) : Addresses := fun address =>
  if offset ≤ address then (data[address - offset]?).getD (memory address) else memory address

@[simp]
theorem read_length : (memory.read offset width).length = width := by simp [read]

theorem read_succ : memory.read offset (width + 1) =
    memory offset :: memory.read (offset + 1) width := by
  simp [read, List.range'_succ]

theorem read_congr (agree : ∀ address, offset ≤ address → address < offset + width →
      memory address = other address) :
    memory.read offset width = other.read offset width := by
  apply List.map_congr_left
  intro address membership
  rw [List.mem_range'_1] at membership
  exact agree address membership.1 membership.2

theorem read_add (first second : Nat) : memory.read offset (first + second) =
    memory.read offset first ++ memory.read (offset + first) second := by
  simp [read, ← List.range'_append_1]

theorem write_inside {index : Nat} (inside : index < data.length) :
    memory.write offset data (offset + index) = data[index] := by
  rw [write, if_pos (Nat.le_add_right _ _), Nat.add_sub_cancel_left,
    List.getElem?_eq_getElem inside, Option.getD_some]

theorem write_below {address : Nat} (below : address < offset) :
    memory.write offset data address = memory address := by
  rw [write, if_neg (by omega)]

theorem write_above {address : Nat} (above : offset + data.length ≤ address) :
    memory.write offset data address = memory address := by
  rw [write]
  split
  · rw [List.getElem?_eq_none (by omega), Option.getD_none]
  · rfl

@[simp]
theorem read_write : (memory.write offset data).read offset data.length = data := by
  apply List.ext_getElem
  · exact read_length
  · intro index lower inside
    simp only [read, List.getElem_map, List.getElem_range', one_mul]
    exact write_inside inside

theorem write_write (memory : Addresses) (offset : Nat) (data more : Bytes) :
    (memory.write offset data).write (offset + data.length) more =
      memory.write offset (data ++ more) := by
  funext address
  obtain below | ⟨index, rfl⟩ : address < offset ∨ ∃ index, address = offset + index := by
    by_cases below : address < offset
    · exact .inl below
    · exact .inr ⟨address - offset, by omega⟩
  · rw [write_below (by omega), write_below below, write_below below]
  · by_cases inFirst : index < data.length
    · rw [write_below (by omega), write_inside inFirst,
        write_inside (by rw [List.length_append]; omega), List.getElem_append_left inFirst]
    · by_cases inSecond : index < data.length + more.length
      · have split : offset + index = offset + data.length + (index - data.length) := by omega
        rw [write_inside (by rw [List.length_append]; omega),
          List.getElem_append_right (by omega), split, write_inside (by omega)]
      · rw [write_above (by omega), write_above (by omega),
          write_above (by rw [List.length_append]; omega)]

end Addresses

/-- A block of memory behind a pointer that a program looked at. -/
structure Access where
  offset : Nat
  width : Nat
  deriving DecidableEq, Repr

/-- Every byte of the block is one of the first `size` bytes. -/
def Access.Inside (access : Access) (size : Nat) : Prop :=
  ∀ index < access.width, access.offset + index < size

namespace Access

variable {access : Access} {size : Nat}

theorem inside_iff : access.Inside size ↔
    access.width = 0 ∨ access.offset + access.width ≤ size := by
  constructor
  · intro inside
    by_cases empty : access.width = 0
    · exact .inl empty
    · have last := inside (access.width - 1) (by omega)
      exact .inr (by omega)
  · intro fits index bound
    omega

end Access

end CrossOver.Lib
