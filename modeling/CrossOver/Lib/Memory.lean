import CrossOver.Lib.Bytes

/-!
# Copies inside a fixed block of memory

A block is a byte list whose length never changes.  `memcpy` overwrites a
range of it.  The lemmas describe the initial part of a block after a copy,
which is all that a buffer with a fill level ever exposes.
-/

namespace CrossOver.Lib

/-- Overwrite `block` from `offset` on with `data`. -/
def memcpy (block : Bytes) (offset : Nat) (data : Bytes) : Bytes :=
  block.take offset ++ data ++ block.drop (offset + data.length)

theorem memcpy_length {block data : Bytes} {offset : Nat}
    (fits : offset + data.length ≤ block.length) :
    (memcpy block offset data).length = block.length := by
  simp only [memcpy, List.length_append, List.length_take, List.length_drop]
  omega

/-- The copied range extends the part of the block in front of it. -/
theorem memcpy_take {block data : Bytes} {offset : Nat}
    (fits : offset + data.length ≤ block.length) :
    (memcpy block offset data).take (offset + data.length) = block.take offset ++ data := by
  have front : (block.take offset ++ data).length = offset + data.length := by
    simp only [List.length_append, List.length_take]
    omega
  rw [memcpy, ← front, List.take_left]

/-- Two copies that touch are one copy. -/
theorem memcpy_memcpy (block first second : Bytes) :
    memcpy (memcpy block 0 first) first.length second = memcpy block 0 (first ++ second) := by
  simp [memcpy, List.drop_append]

theorem memcpy_nil (block : Bytes) : memcpy block 0 [] = block := by
  simp [memcpy]

/-- `memcpy` to a signed offset; `none` is an access outside the block. -/
def store (block : Bytes) (offset : Int) (data : Bytes) : Option Bytes :=
  if data = [] then some block
  else if 0 ≤ offset ∧ offset + data.length ≤ block.length then
    some (memcpy block offset.toNat data)
  else none

/-- The bytes at a signed offset; `none` is an access outside the block. -/
def load (block : Bytes) (offset : Int) (count : Nat) : Option Bytes :=
  if count = 0 then some []
  else if 0 ≤ offset ∧ offset + count ≤ block.length then
    some ((block.drop offset.toNat).take count)
  else none

/-- A copy to the start of the block leaves the data as its initial part. -/
theorem memcpy_zero_take (block data : Bytes) :
    (memcpy block 0 data).take data.length = data := by
  simp [memcpy]

end CrossOver.Lib
