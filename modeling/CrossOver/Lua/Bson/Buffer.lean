import CrossOver.Lib.Memory
import CrossOver.Lua.Seri

/-!
# The output buffer of the BSON encoder

`struct bson` is a block of memory with a fill level.  `bson_reserve` moves it to
a larger block by doubling, so a writer keeps offsets and never pointers.  Bytes
that were reserved but not written yet are zero here; the encoder overwrites
every one of them.

`Appends` is the specification of a writer: it adds given bytes behind what the
buffer holds, in whatever block that ends up.
-/

namespace CrossOver.Lua.Bson

open CrossOver.Lib

inductive Failure where
  | luaError (message : String)
  /-- a signed addition or the doubling of the capacity leaves the type `int` -/
  | overflow
  | outOfBounds
  | outOfFuel
  deriving DecidableEq, Repr

def defaultCap : Nat := 64

structure Buffer where
  size : Nat
  memory : Bytes
  size_le : size ≤ memory.length
  cap_le : defaultCap ≤ memory.length

abbrev Writer := StateT Buffer (Except Failure)

namespace Buffer

def content (b : Buffer) : Bytes := b.memory.take b.size

@[simp]
theorem content_length (b : Buffer) : b.content.length = b.size := by
  have bound := b.size_le
  rw [content, List.length_take]
  omega

def create : Buffer where
  size := 0
  memory := List.replicate defaultCap 0
  size_le := Nat.zero_le _
  cap_le := by simp

@[simp]
theorem create_content : create.content = [] := rfl

end Buffer

/-- The loop that doubles the capacity until it exceeds what is needed. -/
def doubled : Nat → Nat → Nat → Except Failure Nat
  | 0, _, _ => .error .outOfFuel
  | fuel + 1, cap, needed =>
      if 2 ^ 31 ≤ 2 * cap then .error .overflow
      else if 2 * cap ≤ needed then doubled fuel (2 * cap) needed
      else .ok (2 * cap)

/-- The block of `cap` bytes that keeps the old block as its initial part. -/
def reallocated (b : Buffer) (cap : Nat) : Buffer where
  size := b.size
  memory := b.memory ++ List.replicate (cap - b.memory.length) 0
  size_le := by
    have bound := b.size_le
    rw [List.length_append]
    omega
  cap_le := by
    have bound := b.cap_le
    rw [List.length_append]
    omega

def reserve (sz : Nat) : Writer Unit := fun b =>
  if 2 ^ 31 ≤ b.size + sz then .error .overflow
  else if b.size + sz ≤ b.memory.length then .ok ((), b)
  else do
    let cap ← doubled 31 b.memory.length (b.size + sz)
    return ((), reallocated b cap)

def store (data : Bytes) : Writer Unit := fun b =>
  if fits : b.size + data.length ≤ b.memory.length then
    .ok ((), {
      size := b.size + data.length
      memory := memcpy b.memory b.size data
      size_le := by rw [memcpy_length fits]; exact fits
      cap_le := by rw [memcpy_length fits]; exact b.cap_le })
  else .error .outOfBounds

def append (data : Bytes) : Writer Unit := do
  reserve data.length
  store data

def writeByte (v : UInt8) : Writer Unit := append [v]

def writeInt32 (v : Int) : Writer Unit := append (intBytes 4 v)

def writeInt64 (v : Int) : Writer Unit := append (intBytes 8 v)

def writeDouble (bits : UInt64) : Writer Unit := append (leBytes 8 bits.toNat)

def writeString (key : Bytes) : Writer Unit := append (key ++ [0])

/-- Move the fill level over four bytes that are filled in later. -/
def reserveLength : Writer Nat := do
  let b ← get
  append [0, 0, 0, 0]
  return b.size

def writeLength (v : Int) (off : Nat) : Writer Unit := fun b =>
  if fits : off + 4 ≤ b.memory.length then
    .ok ((), { b with
      memory := memcpy b.memory off (intBytes 4 v)
      size_le := by rw [memcpy_length (by simpa [intBytes] using fits)]; exact b.size_le
      cap_le := by rw [memcpy_length (by simpa [intBytes] using fits)]; exact b.cap_le })
  else .error .outOfBounds

def writtenSize : Writer Nat := do
  let b ← get
  return b.size

/-- The writer adds `bytes`, as long as the buffer stays below `2 ^ 30` bytes. -/
def Appends (x : Writer Unit) (bytes : Bytes) : Prop :=
  ∀ b : Buffer, b.size + bytes.length < 2 ^ 30 →
    ∃ next, x b = .ok ((), next) ∧ next.content = b.content ++ bytes

theorem doubled_spec (fuel cap needed : Nat) (enough : 2 ^ 31 ≤ cap * 2 ^ fuel)
    (below : cap ≤ needed) (bound : needed < 2 ^ 30) :
    ∃ result, doubled fuel cap needed = .ok result ∧ needed < result := by
  induction fuel generalizing cap with
  | zero => omega
  | succ fuel inductionHypothesis =>
      have small : ¬ 2 ^ 31 ≤ 2 * cap := by omega
      simp only [doubled, if_neg small]
      split_ifs with again
      · refine inductionHypothesis (2 * cap) ?_ again
        calc 2 ^ 31 ≤ cap * 2 ^ (fuel + 1) := enough
          _ = 2 * cap * 2 ^ fuel := by ring
      · exact ⟨2 * cap, rfl, by omega⟩

theorem reserve_spec (b : Buffer) (sz : Nat) (bound : b.size + sz < 2 ^ 30) :
    ∃ next, reserve sz b = .ok ((), next) ∧ next.size = b.size ∧ next.content = b.content ∧
      b.size + sz ≤ next.memory.length := by
  have narrow : ¬ 2 ^ 31 ≤ b.size + sz := by omega
  have filled := b.size_le
  have positive := b.cap_le
  simp only [defaultCap] at positive
  simp only [reserve, if_neg narrow]
  split_ifs with fits
  · exact ⟨b, rfl, rfl, rfl, fits⟩
  · obtain ⟨cap, result, larger⟩ :=
      doubled_spec 31 b.memory.length (b.size + sz) (by omega) (by omega) bound
    refine ⟨reallocated b cap, by rw [result]; rfl, rfl, ?_, ?_⟩
    · exact List.take_append_of_le_length b.size_le
    · simp only [reallocated, List.length_append, List.length_replicate]
      omega

theorem store_spec (b : Buffer) (data : Bytes) (fits : b.size + data.length ≤ b.memory.length) :
    ∃ next, store data b = .ok ((), next) ∧ next.content = b.content ++ data := by
  simp only [store, dif_pos fits]
  exact ⟨_, rfl, memcpy_take fits⟩

theorem append_appends (data : Bytes) : Appends (append data) data := by
  intro b bound
  obtain ⟨reserved, result, size, content, room⟩ := reserve_spec b data.length bound
  obtain ⟨next, stored, storedContent⟩ := store_spec reserved data (by omega)
  refine ⟨next, ?_, by rw [storedContent, content]⟩
  change (reserve data.length b >>= fun read => store data read.2) = _
  rw [result]
  exact stored

theorem Appends.seq {x y : Writer Unit} {front back : Bytes} (first : Appends x front)
    (second : Appends y back) : Appends (do x; y) (front ++ back) := by
  intro b bound
  rw [List.length_append] at bound
  obtain ⟨middle, firstResult, firstContent⟩ := first b (by omega)
  have size := congrArg List.length firstContent
  simp only [List.length_append, Buffer.content_length] at size
  obtain ⟨next, secondResult, secondContent⟩ := second middle (by omega)
  refine ⟨next, ?_, ?_⟩
  · change (x b >>= fun read => y read.2) = _
    rw [firstResult]
    exact secondResult
  · rw [secondContent, firstContent, List.append_assoc]

theorem Appends.none : Appends (pure ()) [] := by
  intro b bound
  exact ⟨b, rfl, by simp⟩

/-- Filling in a length whose four bytes lie inside the content. -/
theorem writeLength_spec (b : Buffer) (v : Int) (front gap back : Bytes) (four : gap.length = 4)
    (content : b.content = front ++ gap ++ back) :
    ∃ next, writeLength v front.length b = .ok ((), next) ∧
      next.content = front ++ intBytes 4 v ++ back := by
  have filled := b.size_le
  have size := congrArg List.length content
  simp only [List.length_append, Buffer.content_length, four] at size
  have fits : front.length + 4 ≤ b.memory.length := by omega
  have width : (intBytes 4 v).length = 4 := by simp [intBytes]
  refine ⟨_, by rw [writeLength, dif_pos fits], ?_⟩
  have memory : b.memory = front ++ gap ++ back ++ b.memory.drop b.size := by
    rw [← content]
    exact (List.take_append_drop _ _).symm
  change (memcpy b.memory front.length (intBytes 4 v)).take b.size = _
  have copied : memcpy b.memory front.length (intBytes 4 v) =
      front ++ intBytes 4 v ++ back ++ b.memory.drop b.size := by
    have behind : front.length + 4 = (front ++ gap).length := by simp [four]
    generalize b.memory.drop b.size = unused at memory
    rw [memcpy, width, memory, behind]
    simp [List.append_assoc]
  have whole : b.size = (front ++ intBytes 4 v ++ back).length := by
    simp only [List.length_append, width]
    omega
  rw [copied, whole, List.take_left]

/-- A body behind a length that is filled in once the body is there. -/
theorem Appends.patched {body : Writer Unit} {bytes : Bytes} {last : Nat → Writer Unit}
    (value : Int) (appends : Appends body bytes)
    (fills : ∀ off b, b.size = off + 4 + bytes.length → last off b = writeLength value off b) :
    Appends (do
      let off ← reserveLength
      body
      last off) (intBytes 4 value ++ bytes) := by
  intro b bound
  have width : (intBytes 4 value).length = 4 := by simp [intBytes]
  rw [List.length_append, width] at bound
  obtain ⟨opened, openResult, openContent⟩ :=
    append_appends [0, 0, 0, 0] b (by simp only [List.length_cons, List.length_nil]; omega)
  have openSize := congrArg List.length openContent
  simp only [List.length_append, Buffer.content_length, List.length_cons, List.length_nil]
    at openSize
  obtain ⟨filled, bodyResult, bodyContent⟩ := appends opened (by omega)
  have filledSize := congrArg List.length bodyContent
  simp only [List.length_append, Buffer.content_length] at filledSize
  obtain ⟨next, patchResult, patchContent⟩ :=
    writeLength_spec filled value b.content [0, 0, 0, 0] bytes rfl (by rw [bodyContent, openContent])
  refine ⟨next, ?_, by rw [patchContent, List.append_assoc]⟩
  have reserved : reserveLength b = .ok (b.size, opened) := by
    change (append [0, 0, 0, 0] b >>= fun read => Except.ok (b.size, read.2)) = _
    rw [openResult]
    rfl
  change (reserveLength b >>= fun read => body read.2 >>= fun after => last read.1 after.2) = _
  rw [reserved]
  change (body opened >>= fun after => last b.size after.2) = _
  rw [bodyResult]
  change last b.size filled = _
  rw [fills b.size filled (by omega), ← Buffer.content_length b]
  exact patchResult

end CrossOver.Lua.Bson
