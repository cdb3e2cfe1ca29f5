import CrossOver.Engine.SequenceBuffer

/-!
# Draining a `sequence_buffer`

`HandleCanWrite` and `HandleDelaySend` fill the array from the delayed blocks
and hand what it then holds to `send`.  Here the bytes that leave a buffer are
compared with the bytes that were written to it.

A block moves into the array only as a whole, so what matters is its size
against the whole array.  A block that is longer than the array stays where it
is, and everything behind it stays too.
-/

namespace CrossOver.Engine

open CrossOver.Lib

namespace SequenceBuffer

/-- The bytes an operation hands to the buffer. -/
def Op.written : Op → Bytes
  | .write data => data
  | .writeMsg head body => head ++ body
  | .fillVector => []
  | .remove _ => []

/-- The bytes an operation takes out of the array. -/
def Op.handed (b : SequenceBuffer) : Op → Bytes
  | .remove bytes => if bytes ≤ b.getSize then b.front.take bytes else []
  | _ => []

def run (b : SequenceBuffer) (ops : List Op) : SequenceBuffer :=
  ops.foldl (fun b op => op.apply b) b

/-- All the bytes that leave the buffer during a sequence of operations. -/
def output : SequenceBuffer → List Op → Bytes
  | _, [] => []
  | b, op :: rest => op.handed b ++ output (op.apply b) rest

def writtenBytes (ops : List Op) : Bytes := ops.flatMap Op.written

/-- Remove `GetSize()` bytes, again and again. -/
def draining : Nat → SequenceBuffer → List Op
  | 0, _ => []
  | rounds + 1, b => .remove b.getSize :: draining rounds (b.remove b.getSize)

/-- Delayed data is pending and the array is empty even after `FillVector`. -/
def Wedged (b : SequenceBuffer) : Prop :=
  b.fillVector.2.delayBuffList ≠ [] ∧ b.fillVector.2.getSize = 0

instance (b : SequenceBuffer) : Decidable b.Wedged :=
  inferInstanceAs (Decidable (_ ∧ _))

/-- What a sender expects of its write buffer after some operations. -/
structure Flowing (size : Nat) (ops : List Op) : Prop where
  unwedged : ¬ (afterOps size ops).Wedged
  drains : ∃ rounds,
    output (allocate size) (ops ++ draining rounds (afterOps size ops)) = writtenBytes ops
  ready : output (allocate size) ops ≠ writtenBytes ops →
    (afterOps size ops).fillVector.2.getSize ≠ 0

theorem output_append (b : SequenceBuffer) (first second : List Op) :
    output b (first ++ second) = output b first ++ output (b.run first) second := by
  induction first generalizing b with
  | nil => rfl
  | cons op rest inductionHypothesis =>
      simp only [List.cons_append, output, inductionHypothesis, run, List.foldl_cons,
        List.append_assoc]

@[simp]
theorem run_append (b : SequenceBuffer) (first second : List Op) :
    b.run (first ++ second) = (b.run first).run second :=
  List.foldl_append

@[simp]
theorem writtenBytes_append (first second : List Op) :
    writtenBytes (first ++ second) = writtenBytes first ++ writtenBytes second :=
  List.flatMap_append

theorem writtenBytes_draining (rounds : Nat) (b : SequenceBuffer) :
    writtenBytes (draining rounds b) = [] := by
  induction rounds generalizing b with
  | zero => rfl
  | succ rounds inductionHypothesis =>
      simpa [draining, writtenBytes, Op.written] using inductionHypothesis (b.remove b.getSize)

/-! ## Blocks that all fit -/

section Fits

variable {b : SequenceBuffer}

theorem Op.handed_spec (sound : b.Sound) (op : Op) :
    op.handed b ++ op.onQueue b.len b.content = b.content ++ op.written := by
  cases op with
  | write data => simp [Op.handed, Op.onQueue, Op.written]
  | writeMsg head body => simp [Op.handed, Op.onQueue, Op.written]
  | fillVector => simp [Op.handed, Op.onQueue, Op.written]
  | remove bytes =>
      by_cases inside : bytes ≤ b.len
      · have first : b.front.take bytes = b.content.take bytes := by
          rw [front, List.take_take, Nat.min_eq_left inside, take_buffer sound inside]
        simp only [Op.handed, Op.onQueue, Op.written, getSize, inside, if_true, first,
          List.take_append_drop, List.append_nil]
      · simp [Op.handed, Op.onQueue, Op.written, getSize, inside]

theorem Op.apply_fitting (op : Op) (fitting : b.Fitting) (fits : op.written.length ≤ b.totalSize) :
    (op.apply b).Fitting := by
  cases op with
  | write data => exact fitting.write fits
  | writeMsg head body => exact fitting.writeMsg fits
  | fillVector => exact fitting.fillVector
  | remove bytes => exact fitting.remove bytes

theorem Op.short_of_fits {op : Op} {size : Nat} (small : size < 2 ^ 32)
    (fits : op.written.length ≤ size) : op.Short := by
  cases op with
  | write data => exact fits.trans_lt small
  | writeMsg head body =>
      rw [Op.written, List.length_append] at fits
      exact fits.trans_lt small
  | fillVector => trivial
  | remove bytes => trivial

/-- While every block fits, nothing is lost on the way through the buffer. -/
theorem run_spec (ops : List Op) (wellFormed : b.WellFormed) (fitting : b.Fitting)
    (small : b.totalSize < 2 ^ 32) (fits : ∀ op ∈ ops, op.written.length ≤ b.totalSize) :
    (b.run ops).WellFormed ∧ (b.run ops).Fitting ∧
      output b ops ++ (b.run ops).content = b.content ++ writtenBytes ops := by
  induction ops generalizing b with
  | nil => exact ⟨wellFormed, fitting, by simp [output, run, writtenBytes]⟩
  | cons op rest inductionHypothesis =>
      have opFits := fits op (by simp)
      obtain ⟨applied, content, totalSize⟩ :=
        Op.apply_spec wellFormed.toSound op (Op.short_of_fits small opFits)
      obtain ⟨restWellFormed, restFitting, balance⟩ := inductionHypothesis applied
        (Op.apply_fitting op fitting opFits) (by rwa [totalSize])
        (fun other membership => by rw [totalSize]; exact fits other (by simp [membership]))
      refine ⟨restWellFormed, restFitting, ?_⟩
      calc output b (op :: rest) ++ (b.run (op :: rest)).content
          = op.handed b ++ (output (op.apply b) rest ++ ((op.apply b).run rest).content) := by
            simp [output, run]
        _ = op.handed b ++ op.onQueue b.len b.content ++ writtenBytes rest := by
            rw [balance, content, List.append_assoc]
        _ = b.content ++ writtenBytes (op :: rest) := by
            rw [Op.handed_spec wellFormed.toSound, List.append_assoc]
            rfl

/-- As many rounds as there are bytes are enough to hand out all of them. -/
theorem draining_output (wellFormed : b.WellFormed) (fitting : b.Fitting) (rounds : Nat)
    (enough : b.content.length ≤ rounds) : output b (draining rounds b) = b.content := by
  induction rounds generalizing b with
  | zero =>
      have empty : b.content = [] := List.length_eq_zero_iff.mp (Nat.le_zero.mp enough)
      rw [empty]
      rfl
  | succ rounds inductionHypothesis =>
      obtain ⟨removed, content, -⟩ := remove_inside wellFormed.toSound (le_refl b.len)
      have front : b.front.take b.len = b.content.take b.len := by
        rw [SequenceBuffer.front, List.take_take, Nat.min_self,
          take_buffer wellFormed.toSound le_rfl]
      have shorter : (b.remove b.len).content.length ≤ rounds := by
        rw [content, List.length_drop]
        by_cases empty : b.len = 0
        · have nothing := content_eq_nil wellFormed fitting empty
          simp [nothing]
        · omega
      have later := inductionHypothesis removed (fitting.remove b.len) shorter
      simp only [draining, output, Op.handed, getSize, le_refl, if_true, Op.apply]
      rw [later, content, front, List.take_append_drop]

end Fits

theorem flowing_of_fits (size : Nat) (small : size < 2 ^ 32) (ops : List Op)
    (fits : ∀ op ∈ ops, op.written.length ≤ size) : Flowing size ops := by
  have start : (allocate size).Fitting := by simp [allocate, Fitting]
  obtain ⟨wellFormed, fitting, balance⟩ :=
    run_spec ops (allocate_wellFormed size) start small fits
  rw [allocate_content, List.nil_append] at balance
  have filled := fillVector_wellFormed wellFormed.toSound
  have filledContent := fillVector_content wellFormed.toSound
  refine ⟨?_, ⟨((allocate size).run ops).content.length, ?_⟩, ?_⟩
  · rintro ⟨pending, empty⟩
    -- an empty array would have let the first block in
    have first := List.head_mem pending
    have blocked := filled.blocked _ (List.head_mem_head? pending)
    have room := fitting.fillVector _ first
    have drained : ((allocate size).run ops).fillVector.2.len = 0 := empty
    rw [getSpace, drained, Nat.sub_zero] at blocked
    exact absurd room (Nat.not_le_of_lt blocked)
  · rw [output_append]
    exact (congrArg _ (draining_output wellFormed fitting _ le_rfl)).trans balance
  · intro owed empty
    have nothing := content_eq_nil filled fitting.fillVector empty
    rw [filledContent] at nothing
    exact owed (by rw [← balance, show ((allocate size).run ops).content = [] from nothing,
      List.append_nil])

/-! ## A block that does not fit -/

/-- What the array and the length fields of the delayed blocks add up to. -/
def load (b : SequenceBuffer) : Nat := b.len + (b.delayBuffList.map BuffPair.len).sum

/-- Some delayed block is longer than the whole array. -/
def Stuck (b : SequenceBuffer) : Prop := ∃ pair ∈ b.delayBuffList, b.totalSize < pair.len

theorem fillVectorLoop_load (b : SequenceBuffer) (pairs : List BuffPair) :
    (b.fillVectorLoop pairs).2.load ≤ b.len + (pairs.map BuffPair.len).sum := by
  fun_induction fillVectorLoop b pairs with
  | case1 b => simp [load]
  | case2 b pair rest => simp [load]
  | case3 b pair rest _ inductionHypothesis =>
      have copied : (pair.data.take pair.len).length ≤ pair.len := List.length_take_le _ _
      rw [place_len] at inductionHypothesis
      simp only [List.map_cons, List.sum_cons]
      omega

theorem fillVectorLoop_stuck (b : SequenceBuffer) (pairs : List BuffPair)
    (stuck : ∃ pair ∈ pairs, b.totalSize < pair.len) : (b.fillVectorLoop pairs).2.Stuck := by
  fun_induction fillVectorLoop b pairs with
  | case1 b => simp at stuck
  | case2 b pair rest => exact stuck
  | case3 b pair rest room inductionHypothesis =>
      apply inductionHypothesis
      obtain ⟨large, membership, exceeds⟩ := stuck
      rcases List.mem_cons.mp membership with rfl | later
      · unfold getSpace at room
        omega
      · exact ⟨large, later, exceeds⟩

theorem fillVector_load (b : SequenceBuffer) : b.fillVector.2.load ≤ b.load :=
  fillVectorLoop_load b b.delayBuffList

theorem remove_load (b : SequenceBuffer) (bytes : Nat) :
    ((Op.remove bytes).handed b).length + (b.remove bytes).load ≤ b.load := by
  by_cases inside : bytes ≤ b.len
  · have handed : ((Op.remove bytes).handed b).length ≤ bytes := by
      simp only [Op.handed, getSize, inside, if_true]
      exact List.length_take_le _ _
    have kept : (b.remove bytes).load ≤ b.len - bytes + (b.delayBuffList.map BuffPair.len).sum := by
      unfold remove
      dsimp only
      split
      · split
        · exact fillVector_load { b with len := b.len - bytes }
        · exact fillVector_load { b with
            buffer := memcpy b.buffer 0 ((b.buffer.drop bytes).take (b.len - bytes))
            len := b.len - bytes }
      · next nothing =>
          have zero : bytes = 0 := by omega
          subst zero
          exact fillVector_load b
    unfold load at kept ⊢
    omega
  · have notInside : ¬ (0 < bytes ∧ bytes ≤ b.len) := by omega
    have filled := fillVector_load b
    simpa [Op.handed, getSize, inside, remove, notInside] using filled

theorem Stuck.remove {b : SequenceBuffer} (stuck : b.Stuck) (bytes : Nat) :
    (b.remove bytes).Stuck := by
  unfold SequenceBuffer.remove
  dsimp only
  split
  · split
    · exact fillVectorLoop_stuck { b with len := b.len - bytes } b.delayBuffList stuck
    · exact fillVectorLoop_stuck { b with
        buffer := memcpy b.buffer 0 ((b.buffer.drop bytes).take (b.len - bytes))
        len := b.len - bytes } b.delayBuffList stuck
  · exact fillVectorLoop_stuck b b.delayBuffList stuck

theorem delay_load (b : SequenceBuffer) (data : Bytes) :
    (b.delay data).load = b.load + data.length % 2 ^ 32 := by
  simp only [load, delay, List.map_append, List.map_cons, List.map_nil, List.sum_append,
    List.sum_cons, List.sum_nil]
  omega

theorem place_load (b : SequenceBuffer) (data : Bytes) :
    (b.place data).load = b.load + data.length := by
  simp only [load, place]
  omega

/-- The operations never hand out more than they were given. -/
theorem Op.apply_load (b : SequenceBuffer) (op : Op) :
    (op.handed b).length + (op.apply b).load ≤ b.load + op.written.length := by
  have filled := fillVector_load b
  cases op with
  | write data =>
      have wrapped := Nat.mod_le data.length (2 ^ 32)
      simp only [Op.handed, Op.apply, Op.written, List.length_nil, Nat.zero_add,
        SequenceBuffer.write]
      split
      · split
        · rw [delay_load]
          omega
        · rw [place_load]
          omega
      · rw [delay_load]
        omega
  | writeMsg head body =>
      have wrapped := Nat.mod_le (head ++ body).length (2 ^ 32)
      simp only [Op.handed, Op.apply, Op.written, List.length_nil, Nat.zero_add,
        SequenceBuffer.writeMsg]
      split
      · split
        · rw [delay_load]
          omega
        · rw [place_load, place_load, List.length_append]
          omega
      · rw [delay_load]
        omega
  | fillVector => simpa [Op.handed, Op.apply, Op.written] using filled
  | remove bytes => simpa [Op.written, Op.apply] using remove_load b bytes

theorem run_load (b : SequenceBuffer) (ops : List Op) :
    (output b ops).length + (b.run ops).load ≤ b.load + (writtenBytes ops).length := by
  induction ops generalizing b with
  | nil => simp [output, run, writtenBytes]
  | cons op rest inductionHypothesis =>
      have step := Op.apply_load b op
      have later := inductionHypothesis (op.apply b)
      have written : (writtenBytes (op :: rest)).length =
          op.written.length + (writtenBytes rest).length := by simp [writtenBytes]
      simp only [output, List.length_append, run, List.foldl_cons] at later ⊢
      omega

/-- An operation that hands over more than the array holds is delayed as a
block, whatever the buffer holds. -/
theorem Op.apply_exceeding (b : SequenceBuffer) (op : Op)
    (exceeds : b.totalSize < op.written.length) :
    op.apply b = b.fillVector.2.delay op.written := by
  have space : b.fillVector.2.getSpace < op.written.length := by
    unfold getSpace
    rw [fillVector_totalSize]
    omega
  cases op with
  | write data =>
      have full : b.fillVector.2.getSpace < data.length := space
      simp only [Op.apply, SequenceBuffer.write, full, if_true, Op.written, ite_self]
  | writeMsg head body =>
      have full : b.fillVector.2.getSpace < head.length + body.length := by
        simpa [Op.written] using space
      simp only [Op.apply, SequenceBuffer.writeMsg, full, if_true, Op.written, ite_self]
  | fillVector => simp [Op.written] at exceeds
  | remove bytes => simp [Op.written] at exceeds

theorem draining_stuck {b : SequenceBuffer} (stuck : b.Stuck) (rounds : Nat) :
    (b.run (draining rounds b)).Stuck := by
  induction rounds generalizing b with
  | zero => exact stuck
  | succ rounds inductionHypothesis => exact inductionHypothesis (stuck.remove b.getSize)

theorem run_totalSize (b : SequenceBuffer) (ops : List Op) :
    (b.run ops).totalSize = b.totalSize := by
  induction ops generalizing b with
  | nil => rfl
  | cons op rest inductionHypothesis =>
      have step : (op.apply b).totalSize = b.totalSize := by
        cases op with
        | write data => exact write_totalSize
        | writeMsg head body => exact writeMsg_totalSize
        | fillVector => exact fillVector_totalSize b
        | remove bytes => exact remove_totalSize bytes
      exact (inductionHypothesis (op.apply b)).trans step

/-- After a block that is longer than the array, some byte never leaves. -/
theorem not_drains_of_exceeding (size : Nat) (small : size < 2 ^ 32) (before : List Op) (op : Op)
    (exceeds : size < op.written.length) (rounds : Nat) :
    output (allocate size)
        (before ++ [op] ++ draining rounds (afterOps size (before ++ [op]))) ≠
      writtenBytes (before ++ [op]) := by
  intro drained
  have total : ((allocate size).run before).totalSize = size :=
    run_totalSize (allocate size) before
  have earlier := run_load (allocate size) before
  have filled := fillVector_load ((allocate size).run before)
  have empty : (allocate size).load = 0 := by simp [allocate, load]
  -- the block goes to the end of the delayed list
  obtain ⟨after, atEnd⟩ : ∃ after, after = afterOps size (before ++ [op]) := ⟨_, rfl⟩
  have kept : after = ((allocate size).run before).fillVector.2.delay op.written := by
    rw [atEnd, show afterOps size (before ++ [op]) = ((allocate size).run before).run [op] from
      run_append (allocate size) before [op]]
    apply Op.apply_exceeding
    rwa [total]
  have handed : (op.handed ((allocate size).run before)) = [] := by
    cases op with
    | write data => rfl
    | writeMsg head body => rfl
    | fillVector => rfl
    | remove bytes => simp [Op.written] at exceeds
  have later := run_load after (draining rounds after)
  have lengths := congrArg List.length drained
  rw [← atEnd, output_append, show (allocate size).run (before ++ [op]) = after from atEnd.symm,
    output_append, writtenBytes_append] at lengths
  rw [writtenBytes_draining] at later
  simp only [output, handed, List.append_nil, List.length_append, List.length_nil,
    writtenBytes, List.flatMap_cons, List.flatMap_nil] at lengths later earlier
  have loaded : after.load =
      ((allocate size).run before).fillVector.2.load + op.written.length % 2 ^ 32 := by
    rw [kept, delay_load]
  by_cases short : op.written.length < 2 ^ 32
  · have stuck : after.Stuck := by
      refine ⟨⟨op.written, op.written.length % 2 ^ 32⟩, ?_, ?_⟩
      · rw [kept]
        simp [delay]
      · rw [kept, delay_totalSize, fillVector_totalSize, total, Nat.mod_eq_of_lt short]
        exact exceeds
    obtain ⟨pair, membership, long⟩ := draining_stuck stuck rounds
    have inLoad : pair.len ≤ (after.run (draining rounds after)).load := by
      obtain ⟨front, rest, split⟩ := List.append_of_mem membership
      simp only [load, split, List.map_append, List.map_cons, List.sum_append, List.sum_cons]
      omega
    have wrapped := Nat.mod_le op.written.length (2 ^ 32)
    omega
  · have wrapped := Nat.mod_lt op.written.length (show 0 < 2 ^ 32 by norm_num)
    omega

/-- A run of a write buffer keeps flowing exactly as long as no single write is
longer than the array. -/
theorem flowing_iff_fits (size : UInt32) (ops : List Op) :
    (∀ before, before <+: ops → Flowing size.toNat before) ↔
      ∀ op ∈ ops, op.written.length ≤ size.toNat := by
  have small : size.toNat < 2 ^ 32 := size.toNat_lt
  constructor
  · intro flowing op membership
    by_contra exceeds
    obtain ⟨before, after, split⟩ := List.append_of_mem membership
    have reached : before ++ [op] <+: ops := ⟨after, by simp [split]⟩
    obtain ⟨rounds, drained⟩ := (flowing _ reached).drains
    exact not_drains_of_exceeding size.toNat small before op (Nat.lt_of_not_le exceeds) rounds
      drained
  · intro fits before reached
    exact flowing_of_fits size.toNat small before fun op membership =>
      fits op (reached.subset membership)

/-- Eight bytes of room and a message of nine: both writes succeed, the array
is empty, and no number of rounds brings out a byte. -/
theorem flowing_fails_nine :
    let ops : List Op := [.writeMsg [5, 0, 0, 0] [1, 2, 3, 4, 5], .write [6]]
    (afterOps 8 ops).Wedged ∧ ¬ Flowing 8 ops := by
  have wedged : (afterOps 8 [.writeMsg [5, 0, 0, 0] [1, 2, 3, 4, 5], .write [6]]).Wedged := by decide
  exact ⟨wedged, fun flowing => flowing.unwedged wedged⟩

end SequenceBuffer

end CrossOver.Engine
