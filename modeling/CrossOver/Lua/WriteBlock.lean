import CrossOver.Lib.Memory

/-!
# The block chain of the encoder

`wb_push` fills blocks of `BLOCK_SIZE` bytes and chains a new one whenever the
current one is full; `seri` copies the chain into one buffer.  A null `next`
pointer is the end of the block list, and following it is `none`.
-/

namespace CrossOver.Lua

open CrossOver.Lib

def blockSize : Nat := 128

/-- The value of an expression of type `int` computed as `value`. -/
def int32Of (value : Int) : Int := value.bmod (2 ^ 32)

theorem int32Of_of_bounds {value : Int} (lower : -2 ^ 31 ≤ value) (upper : value < 2 ^ 31) :
    int32Of value = value := by
  simp only [int32Of, Int.bmod]
  split <;> omega

theorem int32Of_add (first second : Int) :
    int32Of (int32Of first + second) = int32Of (first + second) := by
  simp only [int32Of, Int.bmod_add_bmod]

structure WriteBlock where
  /-- the blocks in front of the current one -/
  full : List Bytes
  current : Bytes
  len : Int
  ptr : Nat
  current_length : current.length = blockSize
  ptr_le : ptr ≤ blockSize

namespace WriteBlock

def chain (b : WriteBlock) : List Bytes := b.full ++ [b.current]

/-- A block whose buffer has not been written yet. -/
def blkAlloc : Bytes := List.replicate blockSize 0

def init : WriteBlock where
  full := []
  current := blkAlloc
  len := 0
  ptr := 0
  current_length := by simp [blkAlloc]
  ptr_le := Nat.zero_le _

/-- Chain a new block behind the current one. -/
def extend (b : WriteBlock) : WriteBlock where
  full := b.full ++ [b.current]
  current := blkAlloc
  len := b.len
  ptr := 0
  current_length := by simp [blkAlloc]
  ptr_le := Nat.zero_le _

/-- `memcpy` of `data` to the fill level of the current block. -/
def copyIn (b : WriteBlock) (data : Bytes) (fits : b.ptr + data.length ≤ blockSize) :
    WriteBlock where
  full := b.full
  current := memcpy b.current b.ptr data
  len := int32Of (b.len + data.length)
  ptr := b.ptr + data.length
  current_length := by
    rw [memcpy_length]
    · exact b.current_length
    · rw [b.current_length]
      exact fits
  ptr_le := fits

/-- The part of `wb_push` behind the label `_again`; `fuel` bounds the number of
jumps back to it. -/
def pushAgain : Nat → WriteBlock → Bytes → Option WriteBlock
  | 0, _, _ => none
  | fuel + 1, b, data =>
      if fits : b.ptr + data.length ≤ blockSize then some (b.copyIn data fits)
      else
        let copy := blockSize - b.ptr
        let filled := b.copyIn (data.take copy) (by
          have bound := b.ptr_le
          simp only [List.length_take]
          omega)
        pushAgain fuel filled.extend (data.drop copy)

/-- `wb_push`; every jump to `_again` after the first copies a whole block. -/
def push (b : WriteBlock) (data : Bytes) : Option WriteBlock :=
  pushAgain (data.length / blockSize + 2) (if b.ptr = blockSize then b.extend else b) data

def pushAll (b : WriteBlock) : List Bytes → Option WriteBlock
  | [] => some b
  | data :: rest => (b.push data).bind fun pushed => pushed.pushAll rest

def seriLoop : List Bytes → Nat → Option Bytes
  | _, 0 => some []
  | [], _ + 1 => none
  | block :: next, len + 1 =>
      if len + 1 ≥ blockSize then
        (seriLoop next (len + 1 - blockSize)).map fun rest => block.take blockSize ++ rest
      else some (block.take (len + 1))

/-- What has been pushed so far. -/
def content (b : WriteBlock) : Bytes := b.full.flatten ++ b.current.take b.ptr

/-- Every block but the last is full, and `len` counts the bytes pushed. -/
structure Sound (b : WriteBlock) : Prop where
  full : ∀ block ∈ b.full, block.length = blockSize
  len : b.len = int32Of b.content.length

theorem init_content : init.content = [] := rfl

theorem init_sound : init.Sound := by
  refine ⟨by simp [init], ?_⟩
  rw [init_content]
  rfl

theorem extend_content (b : WriteBlock) (atEnd : b.ptr = blockSize) :
    b.extend.content = b.content := by
  have whole : b.current.take b.ptr = b.current := by
    apply List.take_of_length_le
    rw [b.current_length, atEnd]
  simp [content, extend, whole]

theorem extend_sound (b : WriteBlock) (sound : b.Sound) (atEnd : b.ptr = blockSize) :
    b.extend.Sound := by
  refine ⟨?_, ?_⟩
  · intro block membership
    rcases List.mem_append.mp membership with earlier | last
    · exact sound.full block earlier
    · rw [List.mem_singleton.mp last]
      exact b.current_length
  · rw [extend_content b atEnd]
    exact sound.len

theorem copyIn_content (b : WriteBlock) (data : Bytes) (fits : b.ptr + data.length ≤ blockSize) :
    (b.copyIn data fits).content = b.content ++ data := by
  have taken : (memcpy b.current b.ptr data).take (b.ptr + data.length) =
      b.current.take b.ptr ++ data := by
    apply memcpy_take
    rw [b.current_length]
    exact fits
  simp [content, copyIn, taken]

theorem copyIn_sound (b : WriteBlock) (data : Bytes) (fits : b.ptr + data.length ≤ blockSize)
    (sound : b.Sound) : (b.copyIn data fits).Sound := by
  refine ⟨sound.full, ?_⟩
  have counted : (b.copyIn data fits).len = int32Of (b.len + data.length) := rfl
  rw [counted, copyIn_content, sound.len, int32Of_add]
  simp

/-- One pass from `_again` to the end, with all jumps back. -/
theorem pushAgain_spec (fuel : Nat) (b : WriteBlock) (data : Bytes) (sound : b.Sound)
    (enough : b.ptr + data.length ≤ fuel * blockSize) (positive : 0 < fuel) :
    ∃ pushed, pushAgain fuel b data = some pushed ∧ pushed.Sound ∧
      pushed.content = b.content ++ data := by
  induction fuel generalizing b data with
  | zero => omega
  | succ fuel inductionHypothesis =>
      by_cases fits : b.ptr + data.length ≤ blockSize
      · refine ⟨b.copyIn data fits, ?_, copyIn_sound b data fits sound, copyIn_content b data fits⟩
        simp only [pushAgain, dif_pos fits]
      · have copied : (data.take (blockSize - b.ptr)).length = blockSize - b.ptr := by
          rw [List.length_take]
          omega
        have bound := b.ptr_le
        have fitsPart : b.ptr + (data.take (blockSize - b.ptr)).length ≤ blockSize := by omega
        have atEnd : (b.copyIn _ fitsPart).ptr = blockSize := by
          change b.ptr + (data.take (blockSize - b.ptr)).length = blockSize
          omega
        have filled := copyIn_sound b _ fitsPart sound
        have remaining : (b.copyIn _ fitsPart).extend.ptr + (data.drop (blockSize - b.ptr)).length ≤
            fuel * blockSize := by
          change 0 + (data.drop (blockSize - b.ptr)).length ≤ fuel * blockSize
          rw [List.length_drop]
          rw [Nat.succ_mul] at enough
          omega
        have fuelLeft : 0 < fuel := by
          rcases Nat.eq_zero_or_pos fuel with none | some
          · subst none
            omega
          · exact some
        obtain ⟨pushed, result, pushedSound, pushedContent⟩ :=
          inductionHypothesis _ _ (extend_sound _ filled atEnd) remaining fuelLeft
        refine ⟨pushed, ?_, pushedSound, ?_⟩
        · simp only [pushAgain, dif_neg fits]
          exact result
        · rw [pushedContent, extend_content _ atEnd, copyIn_content, List.append_assoc,
            List.take_append_drop]

theorem push_spec (b : WriteBlock) (data : Bytes) (sound : b.Sound) :
    ∃ pushed, b.push data = some pushed ∧ pushed.Sound ∧ pushed.content = b.content ++ data := by
  have enough : ∀ c : WriteBlock,
      c.ptr + data.length ≤ (data.length / blockSize + 2) * blockSize := by
    intro c
    have bound := c.ptr_le
    simp only [blockSize] at bound ⊢
    omega
  simp only [push]
  split_ifs with atEnd
  · obtain ⟨pushed, result, pushedSound, pushedContent⟩ :=
      pushAgain_spec _ b.extend data (extend_sound b sound atEnd) (enough _) (Nat.succ_pos _)
    exact ⟨pushed, result, pushedSound, by rw [pushedContent, extend_content b atEnd]⟩
  · exact pushAgain_spec _ b data sound (enough b) (Nat.succ_pos _)

theorem pushAll_spec (pushes : List Bytes) (b : WriteBlock) (sound : b.Sound) :
    ∃ pushed, b.pushAll pushes = some pushed ∧ pushed.Sound ∧
      pushed.content = b.content ++ pushes.flatten := by
  induction pushes generalizing b with
  | nil => exact ⟨b, rfl, sound, by simp⟩
  | cons data rest inductionHypothesis =>
      obtain ⟨first, result, firstSound, firstContent⟩ := push_spec b data sound
      obtain ⟨pushed, restResult, pushedSound, pushedContent⟩ :=
        inductionHypothesis first firstSound
      refine ⟨pushed, ?_, pushedSound, ?_⟩
      · simp only [pushAll, result, Option.bind_some, restResult]
      · rw [pushedContent, firstContent, List.flatten_cons, List.append_assoc]

/-- Copying out a number of bytes the chain holds never leaves the chain. -/
theorem seriLoop_spec (full : List Bytes) (last : Bytes) (len : Nat)
    (allFull : ∀ block ∈ full, block.length = blockSize)
    (held : len ≤ full.length * blockSize + last.length) (lastLength : last.length ≤ blockSize) :
    seriLoop (full ++ [last]) len = some ((full ++ [last]).flatten.take len) := by
  induction full generalizing len with
  | nil =>
      cases len with
      | zero => simp [seriLoop]
      | succ len =>
          simp only [List.nil_append, seriLoop, List.flatten_cons, List.flatten_nil,
            List.append_nil]
          simp only [List.length_nil, Nat.zero_mul, Nat.zero_add] at held
          split_ifs with whole
          · have exact : len + 1 - blockSize = 0 := by omega
            have size : len + 1 = blockSize := by omega
            rw [exact, size]
            cases last <;> simp [seriLoop]
          · rfl
  | cons block rest inductionHypothesis =>
      have blockLength := allFull block List.mem_cons_self
      cases len with
      | zero => simp [seriLoop]
      | succ len =>
          simp only [List.cons_append, seriLoop, List.flatten_cons]
          split_ifs with whole
          · rw [inductionHypothesis _ (fun other membership =>
              allFull other (List.mem_cons_of_mem block membership))]
            · simp only [Option.map_some, Option.some.injEq]
              rw [List.take_append, blockLength, List.take_of_length_le (by omega),
                List.take_of_length_le (i := len + 1) (by omega)]
            · simp only [List.length_cons, Nat.succ_mul] at held
              omega
          · rw [List.take_append_of_le_length (by omega)]

theorem content_length (b : WriteBlock) (sound : b.Sound) :
    b.content.length = b.full.length * blockSize + b.ptr := by
  have bound := b.ptr_le
  have current := b.current_length
  have total : ∀ blocks : List Bytes, (∀ block ∈ blocks, block.length = blockSize) →
      blocks.flatten.length = blocks.length * blockSize := by
    intro blocks allFull
    induction blocks with
    | nil => simp
    | cons block rest inductionHypothesis =>
        rw [List.flatten_cons, List.length_append, allFull block List.mem_cons_self,
          inductionHypothesis fun other membership =>
            allFull other (List.mem_cons_of_mem block membership),
          List.length_cons, Nat.succ_mul, Nat.add_comm]
  rw [content, List.length_append, total b.full sound.full, List.length_take]
  omega

/-- The whole content is copied out in order. -/
theorem seriLoop_chain (b : WriteBlock) (sound : b.Sound) :
    seriLoop b.chain b.content.length = some b.content := by
  have bound := b.ptr_le
  have current := b.current_length
  have length := content_length b sound
  rw [chain, seriLoop_spec b.full b.current _ sound.full (by omega) (by omega), length]
  have flat : (b.full ++ [b.current]).flatten = b.content ++ b.current.drop b.ptr := by
    simp [content]
  rw [flat, ← length, List.take_left]

end WriteBlock

end CrossOver.Lua
