import Mathlib.Data.List.Induction
import CrossOver.Lib.Memory

/-!
# `sequence_buffer`

The read and write buffers of a socket.  A fixed array holds the first bytes;
a write that finds no room is kept whole in a list of delayed blocks, and every
operation first moves delayed blocks into the array while the first one fits.

The array and the list together behave as one byte queue.  The condition that
carries this is `Blocked`: between operations the first delayed block does not
fit, so a later write can never get in front of it.
-/

namespace CrossOver.Engine

open CrossOver.Lib

/-- A delayed block.  `len` is a `uint32`, the data has the caller's length. -/
structure BuffPair where
  data : Bytes
  len : Nat
  deriving DecidableEq, Repr

structure SequenceBuffer where
  buffer : Bytes
  len : Nat
  totalSize : Nat
  delayBuffList : List BuffPair
  deriving DecidableEq, Repr

namespace SequenceBuffer

def allocate (size : Nat) : SequenceBuffer :=
  { buffer := List.replicate size 0, len := 0, totalSize := size, delayBuffList := [] }

def getSpace (b : SequenceBuffer) : Nat := b.totalSize - b.len

def getSize (b : SequenceBuffer) : Nat := b.len

/-- `memcpy(buffer_ + len_, data, ...)` followed by `len_ += ...`. -/
def place (b : SequenceBuffer) (data : Bytes) : SequenceBuffer :=
  { b with buffer := memcpy b.buffer b.len data, len := b.len + data.length }

/-- Keep a block for later; its length goes through the `uint32` field. -/
def delay (b : SequenceBuffer) (data : Bytes) : SequenceBuffer :=
  { b with
    delayBuffList := b.delayBuffList ++ [{ data := data, len := data.length % 2 ^ 32 }] }

/-- The loop of `FillVector` over the delayed blocks. -/
def fillVectorLoop (b : SequenceBuffer) : List BuffPair → Bool × SequenceBuffer
  | [] => (true, { b with delayBuffList := [] })
  | pair :: rest =>
      if b.getSpace < pair.len then
        (false, { b with delayBuffList := pair :: rest })
      else
        fillVectorLoop (b.place (pair.data.take pair.len)) rest

def fillVector (b : SequenceBuffer) : Bool × SequenceBuffer :=
  b.fillVectorLoop b.delayBuffList

def write (b : SequenceBuffer) (data : Bytes) : Bool × SequenceBuffer :=
  let filled := b.fillVector
  if filled.1 then
    if filled.2.getSpace < data.length then (true, filled.2.delay data)
    else (true, filled.2.place data)
  else
    (true, filled.2.delay data)

def writeMsg (b : SequenceBuffer) (head body : Bytes) : Bool × SequenceBuffer :=
  let filled := b.fillVector
  if filled.1 then
    if filled.2.getSpace < head.length + body.length then (true, filled.2.delay (head ++ body))
    else (true, (filled.2.place head).place body)
  else
    (true, filled.2.delay (head ++ body))

def remove (b : SequenceBuffer) (bytes : Nat) : SequenceBuffer :=
  let kept :=
    if 0 < bytes ∧ bytes ≤ b.len then
      -- when everything goes, the array itself is left alone
      if b.len = bytes then { b with len := b.len - bytes }
      else
        { b with
          buffer := memcpy b.buffer 0 ((b.buffer.drop bytes).take (b.len - bytes))
          len := b.len - bytes }
    else b
  kept.fillVector.2

def incrementWritten (b : SequenceBuffer) (bytes : Nat) : SequenceBuffer :=
  { b with len := b.len + bytes }

/-- What a system call leaves behind `GetBuffer()`, before `IncrementWritten`. -/
def storeAtBuffer (b : SequenceBuffer) (data : Bytes) : SequenceBuffer :=
  { b with buffer := memcpy b.buffer b.len data }

/-- The filled part of the array. -/
def front (b : SequenceBuffer) : Bytes := b.buffer.take b.len

def delayed (pairs : List BuffPair) : Bytes := pairs.flatMap BuffPair.data

/-- All the bytes the buffer holds, in the order in which they will leave. -/
def content (b : SequenceBuffer) : Bytes := b.front ++ delayed b.delayBuffList

/-- The first delayed block does not fit into the free space. -/
def Blocked (b : SequenceBuffer) : Prop :=
  ∀ pair ∈ b.delayBuffList.head?, b.getSpace < pair.len

instance (b : SequenceBuffer) : Decidable b.Blocked :=
  inferInstanceAs (Decidable (∀ pair ∈ b.delayBuffList.head?, b.getSpace < pair.len))

/-- What holds at every point of every operation. -/
structure Sound (b : SequenceBuffer) : Prop where
  allocated : b.buffer.length = b.totalSize
  fits : b.len ≤ b.totalSize
  whole : ∀ pair ∈ b.delayBuffList, pair.len = pair.data.length

/-- What holds between operations. -/
structure WellFormed (b : SequenceBuffer) : Prop extends Sound b where
  blocked : b.Blocked

theorem allocate_wellFormed (size : Nat) : (allocate size).WellFormed where
  allocated := by simp [allocate]
  fits := by simp [allocate]
  whole := by simp [allocate]
  blocked := by simp [allocate, Blocked]

@[simp]
theorem allocate_content (size : Nat) : (allocate size).content = [] := by
  simp [allocate, content, front, delayed]

theorem front_length {b : SequenceBuffer} (sound : b.Sound) : b.front.length = b.len := by
  have := sound.allocated
  have := sound.fits
  simp only [front, List.length_take]
  omega

/-- What lies in the filled part of the array comes first in the content. -/
theorem take_buffer {b : SequenceBuffer} (sound : b.Sound) {bytes : Nat} (inside : bytes ≤ b.len) :
    b.buffer.take bytes = b.content.take bytes := by
  rw [content, List.take_append_of_le_length (by rw [front_length sound]; exact inside), front,
    List.take_take, Nat.min_eq_left inside]

section Place

variable {b : SequenceBuffer} {data : Bytes}

theorem place_sound (sound : b.Sound) (room : data.length ≤ b.getSpace) :
    (b.place data).Sound where
  allocated := by
    have := sound.allocated
    have := sound.fits
    have inside : b.len + data.length ≤ b.buffer.length := by
      unfold getSpace at room
      omega
    simp only [place]
    rw [memcpy_length inside, sound.allocated]
  fits := by
    have := sound.fits
    unfold getSpace at room
    simp only [place]
    omega
  whole := sound.whole

theorem place_front (sound : b.Sound) (room : data.length ≤ b.getSpace) :
    (b.place data).front = b.front ++ data := by
  have := sound.allocated
  have := sound.fits
  have inside : b.len + data.length ≤ b.buffer.length := by
    unfold getSpace at room
    omega
  exact memcpy_take inside

@[simp]
theorem place_totalSize : (b.place data).totalSize = b.totalSize := rfl

@[simp]
theorem place_delayBuffList : (b.place data).delayBuffList = b.delayBuffList := rfl

@[simp]
theorem place_len : (b.place data).len = b.len + data.length := rfl

theorem place_getSpace : (b.place data).getSpace = b.getSpace - data.length := by
  simp only [getSpace, place_totalSize, place_len]
  omega

end Place

section Delay

variable {b : SequenceBuffer} {data : Bytes}

theorem delay_sound (sound : b.Sound) (short : data.length < 2 ^ 32) : (b.delay data).Sound where
  allocated := sound.allocated
  fits := sound.fits
  whole := by
    intro pair membership
    simp only [delay, List.mem_append, List.mem_singleton] at membership
    rcases membership with old | new
    · exact sound.whole pair old
    · subst new
      exact Nat.mod_eq_of_lt short

theorem delay_content : (b.delay data).content = b.content ++ data := by
  simp [delay, content, front, delayed]

@[simp]
theorem delay_totalSize : (b.delay data).totalSize = b.totalSize := rfl

@[simp]
theorem delay_len : (b.delay data).len = b.len := rfl

/-- Appending behind a block that does not fit keeps the queue blocked. -/
theorem delay_blocked (blocked : b.Blocked) (pending : b.delayBuffList ≠ []) :
    (b.delay data).Blocked := by
  intro pair first
  apply blocked pair
  cases pairs : b.delayBuffList with
  | nil => exact absurd pairs pending
  | cons head rest => simpa [delay, pairs] using first

/-- The first block to be delayed is the one for which there was no room. -/
theorem delay_first_blocked (empty : b.delayBuffList = []) (short : data.length < 2 ^ 32)
    (full : b.getSpace < data.length) : (b.delay data).Blocked := by
  intro pair first
  simp only [delay, empty, List.nil_append, List.head?_cons, Option.mem_def,
    Option.some.injEq] at first
  subst first
  rw [Nat.mod_eq_of_lt short]
  exact full

end Delay

theorem fillVectorLoop_totalSize (b : SequenceBuffer) (pairs : List BuffPair) :
    (b.fillVectorLoop pairs).2.totalSize = b.totalSize := by
  fun_induction fillVectorLoop b pairs with
  | case1 => rfl
  | case2 => rfl
  | case3 b pair rest _ inductionHypothesis => exact inductionHypothesis

theorem fillVectorLoop_suffix (b : SequenceBuffer) (pairs : List BuffPair) :
    (b.fillVectorLoop pairs).2.delayBuffList <:+ pairs := by
  fun_induction fillVectorLoop b pairs with
  | case1 => exact List.suffix_refl _
  | case2 => exact List.suffix_refl _
  | case3 b pair rest _ inductionHypothesis => exact inductionHypothesis.trans (List.suffix_cons _ _)

/-- The loop keeps the content, and stops exactly at a block that does not fit. -/
theorem fillVectorLoop_spec (pairs : List BuffPair) (b : SequenceBuffer)
    (allocated : b.buffer.length = b.totalSize) (fits : b.len ≤ b.totalSize)
    (whole : ∀ pair ∈ pairs, pair.len = pair.data.length) :
    let filled := b.fillVectorLoop pairs
    filled.2.WellFormed ∧
      filled.2.content = b.front ++ delayed pairs ∧
      b.len ≤ filled.2.len ∧
      (filled.1 = true ↔ filled.2.delayBuffList = []) := by
  induction pairs generalizing b with
  | nil =>
      refine ⟨⟨⟨allocated, fits, by simp [fillVectorLoop]⟩, by simp [fillVectorLoop, Blocked]⟩,
        ?_, le_rfl, by simp [fillVectorLoop]⟩
      simp [fillVectorLoop, content, front]
  | cons pair rest inductionHypothesis =>
      have wholeRest : ∀ pair ∈ rest, pair.len = pair.data.length :=
        fun other membership => whole other (List.mem_cons_of_mem _ membership)
      have copied : pair.data.take pair.len = pair.data := by
        rw [whole pair (by simp), List.take_length]
      by_cases full : b.getSpace < pair.len
      · simp only [fillVectorLoop, full, if_true]
        refine ⟨⟨⟨allocated, fits, whole⟩, ?_⟩, rfl, le_rfl, by simp⟩
        intro head first
        simp only [List.head?_cons, Option.mem_def, Option.some.injEq] at first
        subst first
        exact full
      · have sound : ({ b with delayBuffList := [] } : SequenceBuffer).Sound :=
          ⟨allocated, fits, by simp⟩
        have room : pair.data.length ≤ b.getSpace := by
          rw [← whole pair (by simp)]
          omega
        have placed := place_sound sound room
        have extended : (b.place pair.data).front = b.front ++ pair.data :=
          place_front (b := { b with delayBuffList := [] }) sound room
        have rest' := inductionHypothesis (b.place pair.data) placed.allocated placed.fits wholeRest
        simp only [fillVectorLoop, full, if_false, copied]
        refine ⟨rest'.1, ?_, ?_, rest'.2.2.2⟩
        · rw [rest'.2.1, extended]
          simp [delayed]
        · have grown := rest'.2.2.1
          rw [place_len] at grown
          omega

section FillVector

variable {b : SequenceBuffer}

theorem fillVector_wellFormed (sound : b.Sound) : b.fillVector.2.WellFormed :=
  (fillVectorLoop_spec b.delayBuffList b sound.allocated sound.fits sound.whole).1

theorem fillVector_content (sound : b.Sound) : b.fillVector.2.content = b.content :=
  (fillVectorLoop_spec b.delayBuffList b sound.allocated sound.fits sound.whole).2.1

@[simp]
theorem fillVector_totalSize (b : SequenceBuffer) : b.fillVector.2.totalSize = b.totalSize :=
  fillVectorLoop_totalSize b b.delayBuffList

theorem fillVector_ret (sound : b.Sound) :
    b.fillVector.1 = true ↔ b.fillVector.2.delayBuffList = [] :=
  (fillVectorLoop_spec b.delayBuffList b sound.allocated sound.fits sound.whole).2.2.2

end FillVector

/-- Placing data behind an empty delayed list appends it to the content. -/
theorem place_wellFormed {b : SequenceBuffer} {data : Bytes} (sound : b.Sound)
    (empty : b.delayBuffList = []) (room : data.length ≤ b.getSpace) :
    (b.place data).WellFormed ∧ (b.place data).content = b.content ++ data := by
  refine ⟨⟨place_sound sound room, by simp [Blocked, empty]⟩, ?_⟩
  simp [content, place_front sound room, empty, delayed]

section Write

variable {b : SequenceBuffer}

/-- `Write` and `WriteMsg` share one argument: after `FillVector` the data is
either placed behind an empty delayed list or delayed behind a blocked one. -/
theorem delay_wellFormed (sound : b.Sound) {data : Bytes} (short : data.length < 2 ^ 32)
    (noRoom : b.fillVector.1 = true → b.fillVector.2.getSpace < data.length) :
    (b.fillVector.2.delay data).WellFormed ∧
      (b.fillVector.2.delay data).content = b.content ++ data := by
  have filled := fillVector_wellFormed sound
  refine ⟨⟨delay_sound filled.toSound short, ?_⟩, ?_⟩
  · by_cases ret : b.fillVector.1 = true
    · exact delay_first_blocked ((fillVector_ret sound).mp ret) short (noRoom ret)
    · exact delay_blocked filled.blocked fun empty => ret ((fillVector_ret sound).mpr empty)
  · rw [delay_content, fillVector_content sound]

theorem write_spec (sound : b.Sound) {data : Bytes} (short : data.length < 2 ^ 32) :
    (b.write data).1 = true ∧ (b.write data).2.WellFormed ∧
      (b.write data).2.content = b.content ++ data ∧
      (b.write data).2.totalSize = b.totalSize := by
  have filled := fillVector_wellFormed sound
  have same := fillVector_totalSize b
  unfold write
  by_cases ret : b.fillVector.1 = true
  · by_cases full : b.fillVector.2.getSpace < data.length
    · have delayedData := delay_wellFormed sound short fun _ => full
      simp only [ret, full, if_true]
      exact ⟨trivial, delayedData.1, delayedData.2, same⟩
    · have placed := place_wellFormed filled.toSound ((fillVector_ret sound).mp ret)
        (Nat.le_of_not_lt full)
      simp only [ret, full, if_true, if_false]
      refine ⟨trivial, placed.1, ?_, same⟩
      rw [placed.2, fillVector_content sound]
  · have delayedData := delay_wellFormed sound short fun filledAll => absurd filledAll ret
    simp only [ret, Bool.false_eq_true, if_false]
    exact ⟨trivial, delayedData.1, delayedData.2, same⟩

theorem writeMsg_spec (sound : b.Sound) {head body : Bytes}
    (short : head.length + body.length < 2 ^ 32) :
    (b.writeMsg head body).1 = true ∧ (b.writeMsg head body).2.WellFormed ∧
      (b.writeMsg head body).2.content = b.content ++ (head ++ body) ∧
      (b.writeMsg head body).2.totalSize = b.totalSize := by
  have filled := fillVector_wellFormed sound
  have same := fillVector_totalSize b
  have shortMsg : (head ++ body).length < 2 ^ 32 := by simpa using short
  unfold writeMsg
  by_cases ret : b.fillVector.1 = true
  · have empty := (fillVector_ret sound).mp ret
    by_cases full : b.fillVector.2.getSpace < head.length + body.length
    · have delayedData := delay_wellFormed sound shortMsg fun _ => by simpa using full
      simp only [ret, full, if_true]
      exact ⟨trivial, delayedData.1, delayedData.2, same⟩
    · have headRoom : head.length ≤ b.fillVector.2.getSpace := by omega
      have headPlaced := place_wellFormed filled.toSound empty headRoom
      have bodyRoom : body.length ≤ (b.fillVector.2.place head).getSpace := by
        rw [place_getSpace]
        omega
      have bodyPlaced := place_wellFormed headPlaced.1.toSound empty bodyRoom
      simp only [ret, full, if_true, if_false]
      refine ⟨trivial, bodyPlaced.1, ?_, same⟩
      rw [bodyPlaced.2, headPlaced.2, fillVector_content sound, List.append_assoc]
  · have delayedData := delay_wellFormed sound shortMsg fun filledAll => absurd filledAll ret
    simp only [ret, Bool.false_eq_true, if_false]
    exact ⟨trivial, delayedData.1, delayedData.2, same⟩

end Write

section Remove

variable {b : SequenceBuffer} {bytes : Nat}

theorem remove_inside (sound : b.Sound) (inside : bytes ≤ b.len) :
    (b.remove bytes).WellFormed ∧ (b.remove bytes).content = b.content.drop bytes ∧
      (b.remove bytes).totalSize = b.totalSize := by
  have allocated := sound.allocated
  have fits := sound.fits
  have dropFront : b.content.drop bytes = b.front.drop bytes ++ delayed b.delayBuffList := by
    rw [content, List.drop_append_of_le_length (by rw [front_length sound]; exact inside)]
  -- every branch is a `FillVector` on a sound buffer that has lost its first bytes
  have finish : ∀ kept : SequenceBuffer, kept.Sound → kept.totalSize = b.totalSize →
      kept.content = b.content.drop bytes →
      kept.fillVector.2.WellFormed ∧ kept.fillVector.2.content = b.content.drop bytes ∧
        kept.fillVector.2.totalSize = b.totalSize := by
    intro kept keptSound keptTotal keptContent
    refine ⟨fillVector_wellFormed keptSound, ?_, ?_⟩
    · rw [fillVector_content keptSound, keptContent]
    · rw [fillVector_totalSize kept, keptTotal]
  unfold remove
  by_cases positive : 0 < bytes
  · simp only [positive, inside, and_self, if_true]
    by_cases everything : b.len = bytes
    · simp only [everything, if_true]
      apply finish
      · exact ⟨allocated, by simp, sound.whole⟩
      · rfl
      · rw [dropFront]
        simp [content, front, everything]
    · simp only [everything, if_false]
      have shifted : ((b.buffer.drop bytes).take (b.len - bytes)).length = b.len - bytes := by
        simp only [List.length_take, List.length_drop]
        omega
      apply finish
      · refine ⟨?_, ?_, sound.whole⟩
        · simp only
          rw [memcpy_length (by rw [shifted]; omega), allocated]
        · simp only
          omega
      · rfl
      · have moved := memcpy_zero_take b.buffer ((b.buffer.drop bytes).take (b.len - bytes))
        rw [shifted] at moved
        rw [dropFront]
        simp only [content, front, moved, List.drop_take]
  · have zero : bytes = 0 := by omega
    subst zero
    simpa using finish b sound rfl

theorem remove_outside (sound : b.Sound) (outside : b.len < bytes) :
    (b.remove bytes).WellFormed ∧ (b.remove bytes).content = b.content ∧
      (b.remove bytes).totalSize = b.totalSize := by
  have notInside : ¬ (0 < bytes ∧ bytes ≤ b.len) := by omega
  simp only [remove, notInside, if_false]
  exact ⟨fillVector_wellFormed sound, fillVector_content sound, fillVector_totalSize b⟩

end Remove

/-! ## The start of the array -/

section Start

variable {b : SequenceBuffer} {data : Bytes}

theorem fillVector_len (sound : b.Sound) : b.len ≤ b.fillVector.2.len :=
  (fillVectorLoop_spec b.delayBuffList b sound.allocated sound.fits sound.whole).2.2.1

theorem write_len (sound : b.Sound) : b.len ≤ (b.write data).2.len := by
  have filled := fillVector_len sound
  unfold write
  dsimp only
  split
  · split
    · exact filled
    · exact Nat.le_add_right_of_le filled
  · exact filled

theorem writeMsg_len {head body : Bytes} (sound : b.Sound) :
    b.len ≤ (b.writeMsg head body).2.len := by
  have filled := fillVector_len sound
  unfold writeMsg
  dsimp only
  split
  · split
    · exact filled
    · exact Nat.le_add_right_of_le (Nat.le_add_right_of_le filled)
  · exact filled

/-- What only appends leaves the start of the array alone. -/
theorem take_buffer_of_append {after : SequenceBuffer} {bytes : Nat} (sound : b.Sound)
    (soundAfter : after.Sound) (grown : b.len ≤ after.len)
    (appended : after.content = b.content ++ data) (inside : bytes ≤ b.len) :
    after.buffer.take bytes = b.buffer.take bytes := by
  have short : bytes ≤ b.content.length := by
    rw [content, List.length_append, front_length sound]
    exact Nat.le_add_right_of_le inside
  rw [take_buffer soundAfter (inside.trans grown), appended, take_buffer sound inside,
    List.take_append_of_le_length short]

end Start

/-! ## Blocks that fit -/

/-- Every delayed block fits into an empty array. -/
def Fitting (b : SequenceBuffer) : Prop := ∀ pair ∈ b.delayBuffList, pair.len ≤ b.totalSize

section Fitting

variable {b : SequenceBuffer} {data : Bytes}

theorem Fitting.fillVector (fitting : b.Fitting) : b.fillVector.2.Fitting := by
  intro pair membership
  rw [fillVector_totalSize]
  exact fitting pair ((fillVectorLoop_suffix b b.delayBuffList).subset membership)

theorem Fitting.delay (fitting : b.Fitting) (fits : data.length ≤ b.totalSize) :
    (b.delay data).Fitting := by
  intro pair membership
  simp only [SequenceBuffer.delay, List.mem_append, List.mem_singleton] at membership
  rcases membership with old | rfl
  · exact fitting pair old
  · exact (Nat.mod_le _ _).trans fits

theorem Fitting.write (fitting : b.Fitting) (fits : data.length ≤ b.totalSize) :
    (b.write data).2.Fitting := by
  have delayed : (b.fillVector.2.delay data).Fitting :=
    fitting.fillVector.delay (by rwa [fillVector_totalSize])
  unfold SequenceBuffer.write
  dsimp only
  split
  · split
    · exact delayed
    · exact fitting.fillVector
  · exact delayed

theorem Fitting.writeMsg (fitting : b.Fitting) {head body : Bytes}
    (fits : (head ++ body).length ≤ b.totalSize) : (b.writeMsg head body).2.Fitting := by
  have delayed : (b.fillVector.2.delay (head ++ body)).Fitting :=
    fitting.fillVector.delay (by rwa [fillVector_totalSize])
  unfold SequenceBuffer.writeMsg
  dsimp only
  split
  · split
    · exact delayed
    · exact fitting.fillVector
  · exact delayed

theorem Fitting.remove (fitting : b.Fitting) (bytes : Nat) : (b.remove bytes).Fitting := by
  unfold SequenceBuffer.remove
  dsimp only
  split
  · split
    · exact Fitting.fillVector (b := { b with len := b.len - bytes }) fitting
    · exact Fitting.fillVector (b := { b with
        buffer := memcpy b.buffer 0 ((b.buffer.drop bytes).take (b.len - bytes))
        len := b.len - bytes }) fitting
  · exact fitting.fillVector

theorem write_totalSize : (b.write data).2.totalSize = b.totalSize := by
  unfold SequenceBuffer.write
  dsimp only
  split
  · split <;> simp
  · simp

theorem writeMsg_totalSize {head body : Bytes} :
    (b.writeMsg head body).2.totalSize = b.totalSize := by
  unfold SequenceBuffer.writeMsg
  dsimp only
  split
  · split <;> simp
  · simp

theorem remove_totalSize (bytes : Nat) : (b.remove bytes).totalSize = b.totalSize := by
  unfold SequenceBuffer.remove
  dsimp only
  split
  · split <;> simp
  · simp

theorem remove_suffix (b : SequenceBuffer) (bytes : Nat) :
    (b.remove bytes).delayBuffList <:+ b.delayBuffList := by
  unfold SequenceBuffer.remove
  dsimp only
  split
  · split
    · exact fillVectorLoop_suffix { b with len := b.len - bytes } b.delayBuffList
    · exact fillVectorLoop_suffix { b with
        buffer := memcpy b.buffer 0 ((b.buffer.drop bytes).take (b.len - bytes))
        len := b.len - bytes } b.delayBuffList
  · exact fillVectorLoop_suffix b b.delayBuffList

/-- An empty array has nothing behind it. -/
theorem content_eq_nil (wellFormed : b.WellFormed) (fitting : b.Fitting) (empty : b.len = 0) :
    b.content = [] := by
  have none : b.delayBuffList = [] := by
    cases pairs : b.delayBuffList with
    | nil => rfl
    | cons pair rest =>
        have blocked := wellFormed.blocked pair (by simp [pairs])
        have fits := fitting pair (by simp [pairs])
        simp only [getSpace, empty] at blocked
        omega
  simp [content, front, none, empty, delayed]

end Fitting

/-- The operations of a write buffer. -/
inductive Op where
  | write (data : Bytes)
  | writeMsg (head body : Bytes)
  | fillVector
  | remove (bytes : Nat)

/-- A write hands over fewer than `2 ^ 32` bytes. -/
def Op.Short : Op → Prop
  | .write data => data.length < 2 ^ 32
  | .writeMsg head body => head.length + body.length < 2 ^ 32
  | .fillVector => True
  | .remove _ => True

instance (op : Op) : Decidable op.Short := by
  cases op <;> unfold Op.Short <;> infer_instance

def Op.apply (b : SequenceBuffer) : Op → SequenceBuffer
  | .write data => (b.write data).2
  | .writeMsg head body => (b.writeMsg head body).2
  | .fillVector => b.fillVector.2
  | .remove bytes => b.remove bytes

/-- The same operation on a plain byte queue of which the first `available`
bytes may be removed. -/
def Op.onQueue (available : Nat) (queue : Bytes) : Op → Bytes
  | .write data => queue ++ data
  | .writeMsg head body => queue ++ (head ++ body)
  | .fillVector => queue
  | .remove bytes => if bytes ≤ available then queue.drop bytes else queue

theorem Op.apply_spec {b : SequenceBuffer} (sound : b.Sound) (op : Op) (short : op.Short) :
    (op.apply b).WellFormed ∧ (op.apply b).content = op.onQueue b.len b.content ∧
      (op.apply b).totalSize = b.totalSize := by
  cases op with
  | write data => exact (write_spec sound short).2
  | writeMsg head body => exact (writeMsg_spec sound short).2
  | fillVector =>
      exact ⟨fillVector_wellFormed sound, fillVector_content sound, fillVector_totalSize b⟩
  | remove bytes =>
      by_cases inside : bytes ≤ b.len
      · simpa [Op.apply, Op.onQueue, inside] using remove_inside sound inside
      · simpa [Op.apply, Op.onQueue, inside] using remove_outside sound (Nat.lt_of_not_le inside)

/-- The buffer after a sequence of operations on a fresh one. -/
def afterOps (size : Nat) (ops : List Op) : SequenceBuffer :=
  ops.foldl (fun b op => op.apply b) (allocate size)

theorem afterOps_wellFormed (size : Nat) (ops : List Op) (short : ∀ op ∈ ops, op.Short) :
    (afterOps size ops).WellFormed := by
  induction ops using List.reverseRecOn with
  | nil => exact allocate_wellFormed size
  | append_singleton before op inductionHypothesis =>
      have earlier := inductionHypothesis fun other membership =>
        short other (List.mem_append_left _ membership)
      rw [afterOps, List.foldl_append]
      exact (Op.apply_spec earlier.toSound op (short op (by simp))).1

/-- After any operations on a fresh buffer, each further operation acts on the
content as on a byte queue, the fill level stays in the array, and a pending
delayed block does not fit. -/
theorem afterOps_refines_queue (size : Nat) (ops : List Op) (short : ∀ op ∈ ops, op.Short) :
    (afterOps size ops).len ≤ (afterOps size ops).totalSize ∧
      (afterOps size ops).Blocked ∧
      ∀ op : Op, op.Short →
        (op.apply (afterOps size ops)).content =
            op.onQueue (afterOps size ops).len (afterOps size ops).content ∧
          (op.apply (afterOps size ops)).len ≤ (op.apply (afterOps size ops)).totalSize ∧
          (op.apply (afterOps size ops)).Blocked := by
  have wellFormed := afterOps_wellFormed size ops short
  refine ⟨wellFormed.fits, wellFormed.blocked, ?_⟩
  intro op opShort
  have step := Op.apply_spec wellFormed.toSound op opShort
  exact ⟨step.2.1, step.1.fits, step.1.blocked⟩

/-- Eight bytes of room: the second message is delayed, a later short write
queues behind it, and removing the first message lets both in. -/
theorem afterOps_refines_queue_eight :
    (afterOps 8 [.writeMsg [2, 0, 0, 0] [7, 8], .writeMsg [1, 0, 0, 0] [9],
        .write [5]]).delayBuffList ≠ [] ∧
      ((Op.remove 6).apply (afterOps 8 [.writeMsg [2, 0, 0, 0] [7, 8],
        .writeMsg [1, 0, 0, 0] [9], .write [5]])).content = [1, 0, 0, 0, 9, 5] := by
  refine ⟨by decide, ?_⟩
  have queue := (afterOps_refines_queue 8 [.writeMsg [2, 0, 0, 0] [7, 8],
    .writeMsg [1, 0, 0, 0] [9], .write [5]] (by decide)).2.2 (.remove 6) trivial
  exact queue.1.trans (by decide)

end SequenceBuffer

end CrossOver.Engine
